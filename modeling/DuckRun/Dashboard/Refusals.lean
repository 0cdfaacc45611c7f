import DuckRun.Dashboard.ContextHandlers
import DuckRun.Dashboard.Interleavings
/-!
# Rejected requests

A request that ends in a 4xx, or whose save the database refuses, has changed
nothing: no handler answers with a rejection after its save
(`session_savesLast`). The entities it assigned to meanwhile were its own.
-/

namespace DuckRun.Dashboard

open DuckRun.Lib DuckRun.Lib.Session

def IResult.Rejected (r : IResult) : Prop := rejects r.status = true

section Refusals
variable (chars : CharTable)

theorem hierarchy_savesLast (r : Request) : ((AnyRequest.hierarchy r).session chars).SavesLast IResult.Rejected := by
  rw [hierarchy_session]
  refine .ofQueries_bind (handle_commits chars r) fun o ho => ?_
  cases o with
  | answer r => trivial
  | save cs r =>
    intro hr
    exact absurd (ho.2.symm.trans hr) (by decide)

theorem member_savesLast (r : MemberRequest) : ((AnyRequest.member r).session chars).SavesLast IResult.Rejected := by
  have hsave : ∀ (ps : List Pending) {reply : IResult}, rejects reply.status = false →
      (save ps (done reply) : Session Database (List Pending) IResult).SavesLast IResult.Rejected := by
    intro ps reply h hr
    exact absurd (h.symm.trans hr) (by decide)
  cases r with
  | add id newMemberId now email role =>
    rw [addMember_session]
    split
    · trivial
    refine .ask fun group => ?_
    cases group with
    | none => trivial
    | some g =>
      refine .ask fun user => ?_
      cases user with
      | none => trivial
      | some user =>
        refine .ask fun existing => ?_
        cases existing with
        | true => trivial
        | false => exact hsave _ rfl
  | update id memberId role =>
    rw [updateMember_session]
    refine .ask fun member => ?_
    cases member with
    | none => trivial
    | some m => exact hsave _ rfl
  | remove id memberId =>
    rw [removeMember_session]
    refine .ask fun member => ?_
    cases member with
    | none => trivial
    | some m => exact hsave _ rfl

theorem session_savesLast (r : AnyRequest) : (r.session chars).SavesLast IResult.Rejected := by
  cases r with
  | hierarchy r => exact hierarchy_savesLast chars r
  | member r => exact member_savesLast chars r

/-- A request that ends with a 4xx, or with a save that is refused, has left
every row as it was: alone, and at each of its own moves while others write. -/
theorem rejected_changes_nothing (r : AnyRequest) (db : Database) :
    (∀ accepted, ((r.session chars).run (Database.commit accepted) db).1.Failed IResult.Rejected →
      ((r.session chars).run (Database.commit accepted) db).2 = db) ∧
    ∀ (ms : List (Move Database)) (g : Stage Database (List Pending) IResult),
      exec (step Database.commit) ⟨db, some (r.session chars)⟩ ms = some g → g.Failed IResult.Rejected →
        Along (step Database.commit) (LeavesStore Database.commit) ⟨db, some (r.session chars)⟩ ms :=
  ⟨fun _ hfail => (session_savesLast chars r).run hfail, fun _ _ hrun hfail => (session_savesLast chars r).along hrun hfail⟩

end Refusals

/-! ## A rename with a rejected slug -/

/-- A new name for `b`, with the slug of `a`. -/
def renameOntoA : AnyRequest := .hierarchy (.updateGroup 2 ⟨some "new".toList, some "a".toList, none⟩)

theorem renameOntoA_rejected : ((renameOntoA.session ascii).run (Database.commit true) ⟨twoRoots, []⟩).1 =
    .returned (.result (.conflict "A sibling group with slug 'a' already exists here.")) := by
  decide +kernel

/-- Alone, and with a user added between the two queries. -/
theorem rejected_changes_nothing_renameOntoA :
    ((renameOntoA.session ascii).run (Database.commit true) ⟨twoRoots, []⟩).2 = ⟨twoRoots, []⟩ ∧
      Along (step Database.commit) (LeavesStore Database.commit) ⟨⟨twoRoots, []⟩, some (renameOntoA.session ascii)⟩
        [.own true, .others ⟨twoRoots, [⟨9, "u".toList, none⟩]⟩, .own true] := by
  obtain ⟨halone, hamong⟩ := rejected_changes_nothing ascii renameOntoA ⟨twoRoots, []⟩
  refine ⟨halone true (by rw [renameOntoA_rejected]; rfl), hamong _ _ rfl (.inr ⟨_, rfl, rfl⟩)⟩

end DuckRun.Dashboard
