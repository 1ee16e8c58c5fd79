import ShortLinks.Proofs.OfficeOrder

/-!
# The office that stays

An office that answers one command after the other, and is never closed between them, has nothing
left to do when a command has been answered. So a deletion is applied before the next command, and
each command leads to what is settled. What the office does is one of the orders in which it may
go, also where it closes behind a command.
-/

namespace ShortLinks.CommandLine.Office

set_option autoImplicit false

open Deletion (Entry Event Pipeline)

variable {office : Office} {past : List Event}

/-- The pipeline is as it was left by requests that have all been applied. -/
def Standing (office : Office) : Prop :=
  office.pipeline.Idle ∧ ∃ past, office.pipeline.Untroubled past

theorem standing_staff (store : Store) (settings : ServiceSettings) (codes : CodeSupply) :
    (staff store settings codes).Standing :=
  ⟨Pipeline.idle_start settings.deletion, [], Pipeline.untroubled_start settings.deletion⟩

theorem settle_works (office : Office) : ∃ events, office.Works events office.settle :=
  ⟨_, Pipeline.run_works office.pipeline office.store, rfl⟩

theorem settle_still (office : Office) : office.settle.pipeline.Still :=
  Pipeline.run_still applyRequest office.pipeline office.store

theorem delete_settled (standing : office.Standing) (request : Deletion.Request) :
    let entry : Entry := ⟨office.pipeline.issued, request⟩
    let settled := (office.bring request).settle
    office.delete request = (.ok (), settled) ∧ settled.Standing ∧
      settled.shortener = office.shortener ∧
      settled.store = Pipeline.effect applyRequest ([entry].filter Entry.filled) office.store ∧
      ∃ events, (office.bring request).Works events settled ∧
        .accepted entry ∈ (office.pipeline.accept request).2 ++ events := by
  intro entry settled
  rcases standing with ⟨idle, past, untroubled⟩
  rcases settle_works (office.bring request) with ⟨events, works⟩
  rcases untroubled.applies idle applyRequest_never works.goes (settle_still _) with
    ⟨told, applied, rested, onward⟩
  have taking : office.delete request = (.ok (), settled) := by
    unfold delete
    rw [untroubled.serving.1.intake]
    rfl
  exact ⟨taking, ⟨rested, _, onward⟩, works.shortener, applied, events, works, told⟩

section Leads

variable {terms : Terms} {view next : View} {user : String} {command : Command}
  {outcome : Except Failure String}

theorem obey_standing (standing : office.Standing) (user : String) (command : Command) :
    (office.obey user command).2.Standing := by
  rcases command.direct_or_deletes with direct | ⟨codes, rfl⟩
  · rw [Standing, pipeline_direct office user direct]
    exact standing
  · rcases delete_settled standing ⟨user, codes⟩ with ⟨taken, stands, _⟩
    simp only [obey, taken]
    exact stands

/-- The office that stays answers as is settled. -/
theorem obey_leads (standing : office.Standing) (shows : office.Shows terms view)
    (leads : Leads terms user view command outcome next) :
    (office.obey user command).1 = outcome ∧ (office.obey user command).2.Shows terms next := by
  cases leads with
  | direct direct settles => exact settles office shows
  | delete codes =>
    rcases delete_settled standing ⟨user, codes⟩ with ⟨taken, _, shortener, applied, _⟩
    rcases effect_holds shows.holds ⟨office.pipeline.issued, ⟨user, codes⟩⟩ with ⟨held, policy⟩
    rw [← applied] at held policy
    simp only [obey, taken]
    refine ⟨rfl, held, policy.trans shows.policy, ?_, ?_⟩
    · rw [shortener]
      exact shows.baseUrl
    · rw [shortener]
      exact shows.codes

end Leads

theorem works_nothing (office : Office) : office.Works [] office := ⟨.rest _ _, rfl⟩

theorem obey_obeys (standing : office.Standing) (user : String) (command : Command) :
    Obeys user command office (office.obey user command).1 (office.obey user command).2 := by
  rcases command.direct_or_deletes with direct | ⟨codes, rfl⟩
  · exact .direct direct (works_nothing office) (works_nothing _)
  · rcases delete_settled standing ⟨user, codes⟩ with ⟨taken, _, _, _, events, works, told⟩
    simp only [obey, taken]
    exact .delete (works_nothing office) works (.accepted told)

theorem drain_drains (standing : office.Standing) :
    office.Drains office.drain.1 office.drain.2 := by
  rcases standing with ⟨_, past, untroubled⟩
  rcases settle_works office.shut with ⟨events, works⟩
  exact .returned works (untroubled.returns applyRequest_never office.store)

theorem serve_eq (office : Office) (user : String) (command : Command) :
    office.serve user command =
      (.closing (office.obey user command).2.drain.1 (office.obey user command).1,
        (office.obey user command).2.drain.2) := by
  unfold serve
  rfl

theorem serve_serves (standing : office.Standing) (user : String) (command : Command) :
    office.Serves user command (office.serve user command).1 (office.serve user command).2 := by
  rw [serve_eq]
  have stays := obey_standing standing user command
  exact .closed (obey_obeys standing user command) (drain_drains stays)

end ShortLinks.CommandLine.Office
