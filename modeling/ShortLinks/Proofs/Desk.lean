import ShortLinks.Proofs.LedgerHistory
import ShortLinks.Proofs.PipelineMoves

/-!
# A pipeline and its store

The workers of a pipeline hand their requests to a store. A call takes effect where it succeeds;
one that is replaced by a failure or a panic never reaches the store. So what a run does to the
store can be read off its events, and a store that holds a ledger goes on holding one.
-/

namespace ShortLinks

set_option autoImplicit false

open Deletion (Event Move Pipeline Request)

section Steps

universe u v w

variable {σ : Type u} {μ : Type v} {ε : Type w} {step? : σ → μ → Option (σ × List ε)}

/-- Takes steps that may be impossible, and collects what comes of them. -/
def takeAll? (step? : σ → μ → Option (σ × List ε)) : List μ → σ → Option (σ × List ε)
  | [], state => some (state, [])
  | step :: steps, state =>
      match step? state step with
      | none => none
      | some (next, made) =>
          match takeAll? step? steps next with
          | none => none
          | some (last, later) => some (last, made ++ later)

theorem take_all_cons {step : μ} {steps : List μ} {state last : σ} {made : List ε}
    (ran : takeAll? step? (step :: steps) state = some (last, made)) :
    ∃ between before after, step? state step = some (between, before) ∧
      takeAll? step? steps between = some (last, after) ∧ made = before ++ after := by
  unfold takeAll? at ran
  split at ran
  · cases ran
  · rename_i between before stepped
    split at ran
    · cases ran
    · rename_i reached after later
      cases ran
      exact ⟨between, before, after, stepped, later, rfl⟩

theorem take_all_keeps (kept : σ → List ε → Prop)
    (keeps : ∀ {state next : σ} {past made : List ε} {step : μ}, kept state past →
      step? state step = some (next, made) → kept next (past ++ made))
    {steps : List μ} {state last : σ} {past made : List ε} (begins : kept state past)
    (ran : takeAll? step? steps state = some (last, made)) : kept last (past ++ made) := by
  induction steps generalizing state past made with
  | nil =>
    cases ran
    rw [List.append_nil]
    exact begins
  | cons step steps ih =>
    rcases take_all_cons ran with ⟨between, before, after, stepped, later, rfl⟩
    rw [← List.append_assoc]
    exact ih (keeps begins stepped) later

theorem take_all_append {first second : List μ} {state last : σ} {made : List ε}
    (ran : takeAll? step? (first ++ second) state = some (last, made)) :
    ∃ between before after, takeAll? step? first state = some (between, before) ∧
      takeAll? step? second between = some (last, after) ∧ made = before ++ after := by
  induction first generalizing state made with
  | nil => exact ⟨state, [], made, rfl, ran, rfl⟩
  | cons step first ih =>
    rcases take_all_cons ran with ⟨next, here, rest, stepped, later, rfl⟩
    rcases ih later with ⟨between, before, after, front, back, rfl⟩
    refine ⟨between, here ++ before, after, ?_, back, ?_⟩
    · simp only [takeAll?, stepped, front]
    · rw [List.append_assoc]

end Steps

namespace Deletion

/-- The request that the event hands to the store. -/
def Event.honoured? : Event → Option Request
  | ended _ entry .applied => some entry.request
  | _ => none

def honoured (events : List Event) : List Request := events.filterMap Event.honoured?

theorem honoured_append (past events : List Event) :
    honoured (past ++ events) = honoured past ++ honoured events := List.filterMap_append

end Deletion

namespace Ledger

/-- The ledger after the requests, one after the other. -/
def honour (ledger : Ledger) (requests : List Request) : Ledger :=
  requests.foldl (fun current request => current.markDeleted request.codes request.owner) ledger

theorem honour_bonds (ledger : Ledger) (requests : List Request) :
    (ledger.honour requests).bonds = ledger.bonds := by
  induction requests generalizing ledger with
  | nil => rfl
  | cons request requests ih =>
    exact (ih _).trans (ledger.markDeleted_bonds request.codes request.owner)

theorem honour_grows (ledger : Ledger) (requests : List Request) :
    ledger.Grows (ledger.honour requests) := grows_of_bonds (ledger.honour_bonds requests)

end Ledger

namespace Backend

def honour? : List Request → Backend → Option Backend
  | [], backend => some backend
  | request :: requests, backend =>
      let answered := backend.perform .roomy (.markDeleted request.codes request.owner)
      match answered.answer with
      | .ok _ => honour? requests answered.backend
      | .error _ => none

theorem honour_holds {backend : Backend} {ledger : Ledger} (holds : backend.Holds ledger)
    (requests : List Request) :
    ∃ next, honour? requests backend = some next ∧ next.Holds (ledger.honour requests) := by
  induction requests generalizing backend ledger with
  | nil => exact ⟨backend, rfl, holds⟩
  | cons request requests ih =>
    obtain ⟨answered, kept⟩ :=
      holds_perform holds (.markDeleted request.codes request.owner) rfl
    rcases ih kept with ⟨next, later, held⟩
    refine ⟨next, ?_, held⟩
    have succeeds : (backend.perform .roomy
        (.markDeleted request.codes request.owner)).answer = .ok () := answered
    simp only [honour?, succeeds, later]

theorem honour_append {first second : List Request} {backend between : Backend}
    (front : honour? first backend = some between) :
    honour? (first ++ second) backend = honour? second between := by
  induction first generalizing backend with
  | nil =>
    cases front
    rfl
  | cons request first ih =>
    cases answered : (backend.perform .roomy
        (.markDeleted request.codes request.owner)).answer with
    | error cause =>
      simp only [honour?, answered] at front
      cases front
    | ok done =>
      simp only [List.cons_append, honour?, answered] at front ⊢
      exact ih front

end Backend

/-- A pipeline with the backend that its workers call. -/
structure Desk where
  pipeline : Pipeline
  backend : Backend
  deriving DecidableEq, Repr

namespace Desk

def move? (desk : Desk) (move : Move) : Option (Desk × List Event) :=
  match desk.pipeline.move? move with
  | none => none
  | some (pipeline, events) =>
      match Backend.honour? (Deletion.honoured events) desk.backend with
      | none => none
      | some backend => some (⟨pipeline, backend⟩, events)

def run? (moves : List Move) (desk : Desk) : Option (Desk × List Event) :=
  takeAll? move? moves desk

variable {desk next : Desk} {events : List Event}

theorem move_splits {move : Move} (moved : desk.move? move = some (next, events)) :
    desk.pipeline.move? move = some (next.pipeline, events) ∧
      Backend.honour? (Deletion.honoured events) desk.backend = some next.backend := by
  unfold move? at moved
  cases stepped : desk.pipeline.move? move with
  | none =>
    rw [stepped] at moved
    cases moved
  | some step =>
    rcases step with ⟨pipeline, made⟩
    simp only [stepped] at moved
    cases reached : Backend.honour? (Deletion.honoured made) desk.backend with
    | none =>
      rw [reached] at moved
      cases moved
    | some backend =>
      rw [reached] at moved
      cases moved
      exact ⟨rfl, reached⟩

theorem run_splits {moves : List Move} (ran : run? moves desk = some (next, events)) :
    Pipeline.run? moves desk.pipeline = some (next.pipeline, events) ∧
      Backend.honour? (Deletion.honoured events) desk.backend = some next.backend := by
  induction moves generalizing desk events with
  | nil =>
    cases ran
    exact ⟨rfl, rfl⟩
  | cons move moves ih =>
    rcases take_all_cons ran with ⟨between, before, after, moved, later, rfl⟩
    rcases move_splits moved with ⟨stepped, reached⟩
    rcases ih later with ⟨followed, kept⟩
    refine ⟨?_, ?_⟩
    · simp only [Pipeline.run?, stepped, followed]
    · rw [Deletion.honoured_append, Backend.honour_append reached, kept]

end Desk

end ShortLinks
