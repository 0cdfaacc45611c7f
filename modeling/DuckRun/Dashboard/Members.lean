import DuckRun.Dashboard.Requests
/-!
# The member endpoints, and every request in turn

The three handlers of `/api/groups/{id}/members` that write, each as the store
its `SaveChanges` would leave. With them the server of `Requests.lean` answers
every request that changes the group, project and member tables.
-/

namespace DuckRun.Dashboard

open DuckRun.Lib GroupEndpoints

/-- `AddMemberAsync`, `UpdateMemberAsync` and `RemoveMemberAsync`. -/
inductive MemberRequest where
  | add (id newMemberId : Guid) (now : DateTime) (email role : Option Text)
  | update (id memberId : Guid) (role : Option Text)
  | remove (id memberId : Guid)

section Members
variable (chars : CharTable) (users : Text → Option Guid)

def normalizeRole (role : Option Text) : Text :=
  let r := trim chars (role.getD [])
  if r ∈ ["Admin".toList, "Maintainer".toList, "Developer".toList, "Viewer".toList] then r else "Viewer".toList

def Store.findMember (s : Store) (id memberId : Guid) : Option GroupMember :=
  s.groupMembers.find? fun m => m.id = memberId && m.groupId = id

/-- The rows a member request saves; `none` where it answers with an error. `users`
looks an email up in the user table. -/
def saveMember (s : Store) : MemberRequest → Option Store
  | .add id newMemberId now email role =>
    if isNullOrWhiteSpace chars email then none
    else do
      let group ← s.findGroup id
      let userId ← users (trim chars (email.getD []))
      if s.groupMembers.any fun m => m.groupId = group.id && m.userId = userId then none
      else some (s.apply (.addGroupMember ⟨newMemberId, group.id, userId, normalizeRole chars role, now⟩))
  | .update id memberId role => do
    let member ← s.findMember id memberId
    some { s with
      groupMembers := updateKey GroupMember.id member.id
        (fun m => { m with role := normalizeRole chars role }) s.groupMembers }
  | .remove id memberId => do
    let member ← s.findMember id memberId
    some (s.apply (.removeGroupMember member.id))

/-- A request of either kind, and whether the database is willing to save it. -/
inductive AnyEvent where
  | hierarchy (e : Event)
  | member (r : MemberRequest) (accepted : Bool)

def serveAny (s : Store) : AnyEvent → Store
  | .hierarchy e => serve chars s e
  | .member r accepted =>
    match saveMember chars users s r with
    | none => s
    | some s' => if accepted && s'.indexesOk then s' else s

/-- The store after the requests, one after the other, from an empty database. -/
def reached (es : List AnyEvent) : Store := es.foldl (serveAny chars users) .empty

end Members

/-- What the requests keep. -/
structure Sound (s : Store) : Prop where
  inv : Inv s
  indexes : s.indexesOk = true

section Steps
variable {chars : CharTable} {users : Text → Option Guid}

theorem inv_saveMember {s s' : Store} (hi : Inv s) {r : MemberRequest} (h : saveMember chars users s r = some s') :
    Inv s' := by
  cases r with
  | add id newMemberId now email role =>
    simp only [saveMember] at h
    split at h
    · cases h
    obtain ⟨group, hgroup, h⟩ := Option.bind_eq_some_iff.1 h
    obtain ⟨userId, -, h⟩ := Option.bind_eq_some_iff.1 h
    split at h <;> cases h
    exact inv_addGroupMember hi ⟨group, (findGroup_mem hgroup).1, rfl⟩
  | update id memberId role =>
    obtain ⟨member, -, h⟩ := Option.bind_eq_some_iff.1 h
    cases h
    refine { hi with members := fun m hm => ?_ }
    obtain ⟨x, hx, rfl⟩ := mem_updateKey.1 hm
    obtain ⟨g, hg, hid⟩ := hi.members x hx
    refine ⟨g, hg, hid.trans ?_⟩
    split <;> rfl
  | remove id memberId =>
    obtain ⟨member, -, h⟩ := Option.bind_eq_some_iff.1 h
    cases h
    exact inv_filterMembers hi _

theorem sound_serve (hculture : chars.RecognisesPaths) {s : Store} (hs : Sound s) (e : Event) : Sound (serve chars s e) where
  inv := inv_serve hculture hs.inv e
  indexes := by
    unfold serve
    cases (handle chars e.request).eval s with
    | answer r => exact hs.indexes
    | save cs r =>
      dsimp only
      cases hsave : s.saveChanges e.accepted cs with
      | none => exact hs.indexes
      | some s' => exact (Store.saveChanges_some hsave).2

theorem sound_serveAny (hculture : chars.RecognisesPaths) {s : Store} (hs : Sound s) (e : AnyEvent) :
    Sound (serveAny chars users s e) := by
  cases e with
  | hierarchy e => exact sound_serve hculture hs e
  | member r accepted =>
    simp only [serveAny]
    cases hsave : saveMember chars users s r with
    | none => exact hs
    | some s' =>
      dsimp only
      split
      · rename_i hok
        exact ⟨inv_saveMember hs.inv hsave, (Bool.and_eq_true_iff.1 hok).2⟩
      · exact hs

end Steps

theorem sound_reached {chars : CharTable} (hculture : chars.RecognisesPaths) (users : Text → Option Guid) (es : List AnyEvent) :
    Sound (reached chars users es) := by
  suffices h : ∀ s, Sound s → Sound (es.foldl (serveAny chars users) s) from h .empty ⟨inv_empty, by decide⟩
  induction es with
  | nil => exact fun s hs => hs
  | cons e es ih => exact fun s hs => ih _ (sound_serveAny hculture hs e)

end DuckRun.Dashboard
