import DuckRun.Dashboard.ConsoleLines
import DuckRun.Lib.Machine
import DuckRun.Reporting.Dsn
/-!
# The life of a DSN

The dashboard creates and revokes keys and lists them with their DSNs; a runtime
sends the key of its DSN with every call. Requests read first and save later,
so they run into each other: two revocations of one key both set its
`RevokedAt`, and a call may be carried out after its key has been revoked. But a
key is accepted exactly from the save that creates it to the first that revokes
it, for the project of its DSN.
-/

namespace DuckRun.Reporting

open DuckRun.Lib DuckRun.Dashboard

/-! ## `DsnEndpoints` -/

/-- What `CreateAsync` draws. -/
structure KeyDraw where
  newGuid : Guid
  bytes : Vector UInt8 32
  utcNow : DateTime

/-- The entity of `CreateAsync`. -/
def newApiKey (chars : CharTable) (draw : KeyDraw) (projectId : Guid) (label : Option Text) : ApiKey where
  id := draw.newGuid
  projectId := projectId
  publicKey := newPublicKey draw.bytes
  label := (label.map (Dashboard.trim chars)).getD []
  createdAt := draw.utcNow
  revokedAt := none

structure DsnJson where
  id : Guid
  publicKey : Text
  label : Text
  createdAt : DateTime
  revokedAt : Option DateTime
  dsn : Text
  deriving DecidableEq, Repr

structure CreatedDsnJson where
  id : Guid
  publicKey : Text
  label : Text
  createdAt : DateTime
  dsn : Text
  deriving DecidableEq, Repr

inductive DsnResponse where
  | notFound
  | noContent
  | created (location : String) (json : CreatedDsnJson)
  | fault (exception : String)
  deriving DecidableEq, Repr

section Json
variable (hosts : HostRules) (publicBaseUrl : Text)

def dsnJson (k : ApiKey) : DsnJson :=
  ⟨k.id, k.publicKey, k.label, k.createdAt, k.revokedAt, buildDsn hosts publicBaseUrl k.publicKey k.projectId⟩

/-- `ListAsync`. -/
def listDsnsAsync (t : IngestTables) (projectId : Guid) : List DsnJson :=
  ((OrderBy.descending Int).sort ApiKey.createdAt (t.apiKeys.filter fun k => k.projectId = projectId)).map
    (dsnJson hosts publicBaseUrl)

/-- The answer of `CreateAsync`. -/
def createdResponse (k : ApiKey) : DsnResponse :=
  .created s!"/api/projects/{guidText k.projectId}/dsns/{guidText k.id}"
    ⟨k.id, k.publicKey, k.label, k.createdAt, buildDsn hosts publicBaseUrl k.publicKey k.projectId⟩

end Json

/-! ## `ApiKeyClientInterceptor` -/

/-- gRPC's `Metadata`. -/
abbrev Metadata := List (Text × Text)

/-- `Metadata.GetValue`: the last entry counts. -/
def Metadata.getValue (headers : Metadata) (key : Text) : Option Text := (headers.filter fun h => h.1 = key).getLast?.map Prod.snd

/-- `WithKey`. -/
def withKey (publicKey : Text) (headers : Metadata) : Metadata :=
  if headers.getValue metadataKey.toList = none then headers ++ [(metadataKey.toList, publicKey)] else headers

/-- What the interceptor of the server reads from a call of a runtime with this DSN. -/
def Dsn.header (dsn : Dsn) : Option Text := (withKey dsn.publicKey []).getValue metadataKey.toList

/-! ## Requests among each other -/

inductive KeyRequest where
  /-- `CreateAsync` has found its project. -/
  | creating (key : ApiKey)
  /-- `RevokeAsync` has read the key, which was not revoked. -/
  | revoking (keyId : Guid)
  /-- A call of the ingest service that the interceptor let through. -/
  | admitted (projectId : Guid) (call : Call)

/-- What has been saved. -/
inductive KeyCommit where
  | created (key : ApiKey)
  | revoked (keyId : Guid) (utcNow : DateTime)

inductive KeyAnswer where
  | dsns (response : DsnResponse)
  | ingest (reply : Reply)

structure KeyDesk where
  db : IngestDb
  projects : List Guid
  requests : Nat → Option KeyRequest
  answers : List (Nat × KeyAnswer)
  /-- The saves, newest first. -/
  commits : List KeyCommit

def KeyDesk.initial (db : IngestDb) (projects : List Guid) : KeyDesk := ⟨db, projects, fun _ => none, [], []⟩

inductive KeyEvent where
  | addProject (id : Guid)
  /-- Request `r` is `CreateAsync` and comes to its `SaveChanges`. -/
  | createAsync (r : Nat) (projectId : Guid) (label : Option Text) (draw : KeyDraw)
  | revokeAsync (r : Nat) (projectId keyId : Guid)
  /-- The interceptor's query. -/
  | resolve (r : Nat) (header : Option Text) (call : Call)
  /-- Request `r` goes on: it saves, with what it still draws. -/
  | save (r : Nat) (utcNow : DateTime) (env : IngestAmbient) (accepted : Bool)

def KeyDesk.answer (s : KeyDesk) (r : Nat) (answer : KeyAnswer) : KeyDesk :=
  { s with requests := Function.update s.requests r none, answers := s.answers ++ [(r, answer)] }

def KeyDesk.pend (s : KeyDesk) (r : Nat) (request : KeyRequest) : KeyDesk :=
  { s with requests := Function.update s.requests r (some request) }

section Step
variable (chars : CharTable) (tryParse : Text → Option Guid) (hosts : HostRules) (publicBaseUrl : Text)

/-- What `SaveChanges` sends, and the answer after it. -/
def KeyDesk.save (s : KeyDesk) (r : Nat) (utcNow : DateTime) (env : IngestAmbient) (accepted : Bool) : KeyRequest → KeyDesk
  | .creating key =>
    match IngestDb.saveChanges accepted { s.db.tables with apiKeys := s.db.tables.apiKeys ++ [key] } with
    | none => s.answer r (.dsns (.fault "DbUpdateException"))
    | some db =>
      { s with db := db, commits := .created key :: s.commits }.answer r (.dsns (createdResponse hosts publicBaseUrl key))
  | .revoking keyId =>
    let rows := updateKey ApiKey.id keyId (fun k => { k with revokedAt := some utcNow }) s.db.tables.apiKeys
    match IngestDb.saveChanges accepted { s.db.tables with apiKeys := rows } with
    | none => s.answer r (.dsns (.fault "DbUpdateException"))
    | some db => { s with db := db, commits := .revoked keyId utcNow :: s.commits }.answer r (.dsns .noContent)
  | .admitted projectId call =>
    match run chars tryParse env projectId s.db.tables call with
    | .error e => s.answer r (.ingest (.fault e))
    | .ok (t, reply) =>
      match IngestDb.saveChanges accepted t with
      | none => s.answer r (.ingest (.fault "DbUpdateException"))
      | some db => { s with db := db }.answer r (.ingest reply)

def KeyDesk.step (s : KeyDesk) : KeyEvent → Option KeyDesk
  | .addProject id => some { s with projects := s.projects ++ [id] }
  | .createAsync r projectId label draw =>
    if projectId ∈ s.projects then some (s.pend r (.creating (newApiKey chars draw projectId label)))
    else some (s.answer r (.dsns .notFound))
  | .revokeAsync r projectId keyId =>
    match (EntitySet.open_ s.db.tables.apiKeys).singleOrDefault fun k => k.id = keyId && k.projectId = projectId with
    | .error e => some (s.answer r (.dsns (.fault e)))
    | .ok none => some (s.answer r (.dsns .notFound))
    | .ok (some key) =>
      if key.revokedAt ≠ none then some (s.answer r (.dsns .noContent)) else some (s.pend r (.revoking key.id))
  | .resolve r header call =>
    match resolveAsync chars s.db.tables header with
    | .error reply => some (s.answer r (.ingest reply))
    | .ok apiKey => some (s.pend r (.admitted apiKey.projectId call))
  | .save r utcNow env accepted =>
    (s.requests r).map (s.save chars tryParse hosts publicBaseUrl r utcNow env accepted)

end Step

/-! ## The table after the saves -/

/-- When a key was last revoked. -/
def revokedAt (keyId : Guid) : List KeyCommit → Option DateTime
  | [] => none
  | .revoked id utcNow :: earlier => if id = keyId then some utcNow else revokedAt keyId earlier
  | .created _ :: earlier => revokedAt keyId earlier

/-- The keys created, in the order of their saves. -/
def createdKeys : List KeyCommit → List ApiKey
  | [] => []
  | .created key :: earlier => createdKeys earlier ++ [key]
  | .revoked _ _ :: earlier => createdKeys earlier

/-- A key as it stands after the saves. -/
def keyAfter (commits : List KeyCommit) (key : ApiKey) : ApiKey := { key with revokedAt := revokedAt key.id commits }

/-- The rows are the keys created, each with its last revocation. -/
structure KeyInv (s : KeyDesk) : Prop where
  rows : s.db.tables.apiKeys = (createdKeys s.commits).map (keyAfter s.commits)
  /-- What is revoked was created before. -/
  known : ∀ id, revokedAt id s.commits ≠ none → id ∈ (createdKeys s.commits).map ApiKey.id
  revoking : ∀ r id, s.requests r = some (.revoking id) → id ∈ (createdKeys s.commits).map ApiKey.id
  drawn : ∀ key ∈ createdKeys s.commits, ∃ bytes, key.publicKey = newPublicKey bytes
  creating : ∀ r key, s.requests r = some (.creating key) → key.revokedAt = none ∧ ∃ bytes, key.publicKey = newPublicKey bytes

section Keys
variable {chars : CharTable} {tryParse : Text → Option Guid}

theorem map_id_keyAfter (commits : List KeyCommit) (keys : List ApiKey) :
    (keys.map (keyAfter commits)).map ApiKey.id = keys.map ApiKey.id := by
  rw [List.map_map]
  rfl

/-- A revocation is one update of the table. -/
theorem rows_revoked (commits : List KeyCommit) (keyId : Guid) (utcNow : DateTime) (keys : List ApiKey) :
    updateKey ApiKey.id keyId (fun k => { k with revokedAt := some utcNow }) (keys.map (keyAfter commits)) =
      keys.map (keyAfter (.revoked keyId utcNow :: commits)) := by
  unfold updateKey
  rw [List.map_map]
  refine List.map_congr_left fun key _ => ?_
  rw [Function.comp_apply]
  by_cases hid : key.id = keyId
  · rw [if_pos (show (keyAfter commits key).id = keyId from hid)]
    simp [keyAfter, revokedAt, hid]
  · rw [if_neg (show ¬ (keyAfter commits key).id = keyId from hid)]
    simp [keyAfter, revokedAt, Ne.symm hid]

/-- The keys stay as they are, and no request comes to stand before its save. -/
theorem keyInv_rest {s s' : KeyDesk} (hi : KeyInv s) (hkeys : s'.db.tables.apiKeys = s.db.tables.apiKeys)
    (hcommits : s'.commits = s.commits)
    (hrequests : ∀ r request, s'.requests r = some request → s.requests r = some request ∨ ∃ projectId call,
      request = .admitted projectId call) : KeyInv s' where
  rows := by rw [hkeys, hcommits, hi.rows]
  known := by
    rw [hcommits]
    exact hi.known
  drawn := by
    rw [hcommits]
    exact hi.drawn
  revoking r id hr := by
    rw [hcommits]
    rcases hrequests r _ hr with hr | ⟨_, _, hr⟩
    · exact hi.revoking r id hr
    · cases hr
  creating r key hr := by
    rcases hrequests r _ hr with hr | ⟨_, _, hr⟩
    · exact hi.creating r key hr
    · cases hr

theorem answer_requests {s : KeyDesk} {r : Nat} {answer : KeyAnswer} {q : Nat} {request : KeyRequest}
    (h : (s.answer r answer).requests q = some request) : s.requests q = some request := by
  simp only [KeyDesk.answer] at h
  by_cases hq : q = r
  · rw [hq, Function.update_self] at h
    cases h
  · rwa [Function.update_of_ne hq] at h

theorem keyInv_answer {s : KeyDesk} (hi : KeyInv s) (r : Nat) (answer : KeyAnswer) : KeyInv (s.answer r answer) :=
  keyInv_rest hi rfl rfl fun _ _ h => .inl (answer_requests h)

theorem mem_pend {s : KeyDesk} {r q : Nat} {request request' : KeyRequest} (h : (s.pend r request).requests q = some request') :
    s.requests q = some request' ∨ request' = request := by
  simp only [KeyDesk.pend] at h
  by_cases hq : q = r
  · rw [hq, Function.update_self] at h
    exact .inr (Option.some.inj h).symm
  · rw [Function.update_of_ne hq] at h
    exact .inl h

/-- A creation is saved. -/
theorem keyInv_created {s : KeyDesk} (hi : KeyInv s) {r : Nat} {key : ApiKey} (hpending : s.requests r = some (.creating key))
    {db : IngestDb} (hdb : db.tables.apiKeys = s.db.tables.apiKeys ++ [key]) :
    KeyInv { s with db := db, commits := .created key :: s.commits } := by
  obtain ⟨hlive, hdrawn⟩ := hi.creating r key hpending
  have hnodup : (s.db.tables.apiKeys ++ [key]).map ApiKey.id |>.Nodup := by
    have hkeyed := db.keyed
    simp only [IngestTables.keysOk, Bool.and_eq_true, decide_eq_true_eq] at hkeyed
    rw [← hdb]
    exact hkeyed.1.2
  have hnew : key.id ∉ (createdKeys s.commits).map ApiKey.id := by
    rw [hi.rows, List.map_append, map_id_keyAfter] at hnodup
    exact fun hold => (List.nodup_append.1 hnodup).2.2 _ hold _ (List.mem_singleton.2 rfl) rfl
  have hnever : revokedAt key.id s.commits = none := by
    by_contra hne
    exact hnew (hi.known key.id hne)
  refine { rows := ?_, known := fun id hid => ?_, revoking := fun q id hq => ?_, drawn := fun k hk => ?_, creating := hi.creating }
  · rw [hdb, hi.rows, createdKeys, List.map_append]
    congr 1
    rw [List.map_singleton]
    simp only [keyAfter, revokedAt, hnever, ← hlive]
  · rw [createdKeys, List.map_append]
    exact List.mem_append_left _ (hi.known id hid)
  · rw [createdKeys, List.map_append]
    exact List.mem_append_left _ (hi.revoking q id hq)
  · rcases List.mem_append.1 hk with hk | hk
    · exact hi.drawn k hk
    · rw [List.mem_singleton.1 hk]
      exact hdrawn

/-- A revocation is saved, perhaps after another of the same key. -/
theorem keyInv_revoked {s : KeyDesk} (hi : KeyInv s) {r : Nat} {keyId : Guid} (hpending : s.requests r = some (.revoking keyId))
    {utcNow : DateTime} {db : IngestDb}
    (hdb : db.tables.apiKeys = updateKey ApiKey.id keyId (fun k => { k with revokedAt := some utcNow }) s.db.tables.apiKeys) :
    KeyInv { s with db := db, commits := .revoked keyId utcNow :: s.commits } := by
  refine { rows := ?_, known := fun id hid => ?_, revoking := hi.revoking, drawn := hi.drawn, creating := hi.creating }
  · rw [hdb, hi.rows, rows_revoked]
    rfl
  · simp only [revokedAt] at hid
    split at hid
    · rename_i hsame
      exact hsame ▸ hi.revoking r keyId hpending
    · exact hi.known id hid

theorem keyInv_save {hosts : HostRules} {publicBaseUrl : Text} {s : KeyDesk} (hi : KeyInv s) {r : Nat} {utcNow : DateTime}
    {env : IngestAmbient} {accepted : Bool} {request : KeyRequest} (hpending : s.requests r = some request) :
    KeyInv (s.save chars tryParse hosts publicBaseUrl r utcNow env accepted request) := by
  cases request with
  | creating key =>
    simp only [KeyDesk.save]
    split
    · exact keyInv_answer hi r _
    · rename_i db hsaved
      exact keyInv_answer (keyInv_created hi hpending (by rw [IngestDb.saveChanges_some hsaved])) r _
  | revoking keyId =>
    simp only [KeyDesk.save]
    split
    · exact keyInv_answer hi r _
    · rename_i db hsaved
      exact keyInv_answer (keyInv_revoked hi hpending (by rw [IngestDb.saveChanges_some hsaved])) r _
  | admitted projectId call =>
    simp only [KeyDesk.save]
    split
    · exact keyInv_answer hi r _
    · rename_i t reply hrun
      split
      · exact keyInv_answer hi r _
      · rename_i db hsaved
        refine keyInv_rest hi ?_ rfl fun _ _ h => .inl (@answer_requests { s with db := db } r (.ingest reply) _ _ h)
        simp only [KeyDesk.answer]
        rw [IngestDb.saveChanges_some hsaved]
        exact run_apiKeys hrun

theorem keyInv_step {hosts : HostRules} {publicBaseUrl : Text} {s s' : KeyDesk} (hi : KeyInv s) {e : KeyEvent}
    (h : s.step chars tryParse hosts publicBaseUrl e = some s') : KeyInv s' := by
  cases e with
  | addProject id =>
    cases h
    exact { hi with }
  | createAsync r projectId label draw =>
    simp only [KeyDesk.step] at h
    split at h <;> cases h
    · refine { rows := hi.rows, known := hi.known, drawn := hi.drawn, revoking := fun q id hq => ?_, creating := fun q key hq => ?_ }
      · rcases mem_pend hq with hq | hq
        · exact hi.revoking q id hq
        · cases hq
      · rcases mem_pend hq with hq | hq
        · exact hi.creating q key hq
        · cases hq
          exact ⟨rfl, draw.bytes, rfl⟩
    · exact keyInv_answer hi r _
  | revokeAsync r projectId keyId =>
    simp only [KeyDesk.step] at h
    split at h
    · cases h
      exact keyInv_answer hi r _
    · cases h
      exact keyInv_answer hi r _
    · rename_i key hfound
      split at h <;> cases h
      · exact keyInv_answer hi r _
      · refine { rows := hi.rows, known := hi.known, drawn := hi.drawn, revoking := fun q id hq => ?_, creating := fun q k hq => ?_ }
        · rcases mem_pend hq with hq | hq
          · exact hi.revoking q id hq
          · -- The row that was read is of a key created.
            cases hq
            have hmem := List.mem_map_of_mem (f := ApiKey.id) (EntitySet.singleOrDefault_some hfound).1
            rwa [EntitySet.committed_open, hi.rows, map_id_keyAfter] at hmem
        · rcases mem_pend hq with hq | hq
          · exact hi.creating q k hq
          · cases hq
  | resolve r header call =>
    simp only [KeyDesk.step] at h
    split at h <;> cases h
    · exact keyInv_answer hi r _
    · refine keyInv_rest hi rfl rfl fun q request hq => ?_
      rcases mem_pend hq with hq | hq
      · exact .inl hq
      · exact .inr ⟨_, _, hq⟩
  | save r utcNow env accepted =>
    obtain ⟨request, hpending, rfl⟩ := Option.map_eq_some_iff.1 h
    exact keyInv_save hi hpending

/-! ## Who is let in -/

theorem getValue_withKey (publicKey : Text) : (withKey publicKey []).getValue metadataKey.toList = some publicKey := by
  simp [withKey, Metadata.getValue]

theorem filter_one {α : Type} [DecidableEq α] {p : α → Bool} {l : List α} (hn : l.Nodup) {x : α} (hx : x ∈ l)
    (hp : ∀ y ∈ l, p y = true ↔ y = x) : l.filter p = [x] := by
  have hcongr : l.filter p = l.filter fun y => y = x := by
    refine List.filter_congr fun y hy => ?_
    rw [Bool.eq_iff_iff, hp y hy, decide_eq_true_eq]
  rw [hcongr, List.filter_eq, List.count_eq_one_of_mem hn hx]
  rfl

theorem nodup_publicKey (db : IngestDb) : (db.tables.apiKeys.map ApiKey.publicKey).Nodup := by
  have hkeyed := db.keyed
  simp only [IngestTables.keysOk, Bool.and_eq_true, decide_eq_true_eq] at hkeyed
  exact hkeyed.2

/-- The one row with a public key decides. -/
theorem resolveAsync_row {db : IngestDb} {apiKey : ApiKey} (hmem : apiKey ∈ db.tables.apiKeys)
    (hgiven : isNullOrWhiteSpace chars (some apiKey.publicKey) = false) :
    resolveAsync chars db.tables (some apiKey.publicKey) =
      if apiKey.revokedAt = none then .ok apiKey
      else .error (.rpcException "Unauthenticated" "Invalid or revoked DSN.") := by
  have hone : ∀ k ∈ db.tables.apiKeys, k.publicKey = apiKey.publicKey → k = apiKey :=
    fun k hk hsame => List.inj_on_of_nodup_map (nodup_publicKey db) hk hmem hsame
  unfold resolveAsync
  rw [hgiven, if_neg Bool.false_ne_true]
  by_cases hlive : apiKey.revokedAt = none
  · have hfilter : db.tables.apiKeys.filter (fun k => some k.publicKey = some apiKey.publicKey ∧ k.revokedAt = none) = [apiKey] := by
      refine filter_one (List.Nodup.of_map _ (nodup_publicKey db)) hmem fun k hk => ?_
      simp only [Option.some.injEq, decide_eq_true_eq]
      constructor
      · exact fun h => hone k hk h.1
      · rintro rfl
        exact ⟨rfl, hlive⟩
    rw [hfilter, if_pos hlive]
  · have hfilter : db.tables.apiKeys.filter (fun k => some k.publicKey = some apiKey.publicKey ∧ k.revokedAt = none) = [] := by
      refine List.filter_eq_nil_iff.2 fun k hk h => ?_
      simp only [Option.some.injEq, decide_eq_true_eq] at h
      exact hlive (hone k hk h.1 ▸ h.2)
    rw [hfilter, if_neg hlive]

theorem resolveAsync_ok {t : IngestTables} {header : Option Text} {apiKey : ApiKey}
    (h : resolveAsync chars t header = .ok apiKey) :
    apiKey ∈ t.apiKeys ∧ header = some apiKey.publicKey ∧ apiKey.revokedAt = none := by
  unfold resolveAsync at h
  split at h
  · cases h
  · split at h <;> cases h
    rename_i hone
    have hmem := List.mem_filter.1 (hone ▸ List.mem_singleton.2 rfl : apiKey ∈ _)
    have hboth := of_decide_eq_true hmem.2
    exact ⟨hmem.1, hboth.1.symm, hboth.2⟩

/-- A key drawn is text the interceptor does not take for missing. -/
theorem drawn_given (hspace : ∀ c ∈ urlAlphabet, chars.isWhiteSpace c = false) (bytes : Vector UInt8 32) :
    isNullOrWhiteSpace chars (some (newPublicKey bytes)) = false := by
  have hne : newPublicKey bytes ≠ [] := by
    intro hnil
    have hgiven := newPublicKey_given bytes
    rw [hnil] at hgiven
    cases hgiven
  obtain ⟨c, rest, hcons⟩ := List.exists_cons_of_ne_nil hne
  have hc : c ∈ urlAlphabet := by
    have hmem : c ∈ newPublicKey bytes := hcons ▸ List.mem_cons_self
    rw [newPublicKey, base64UrlEncode_eq] at hmem
    obtain ⟨d, hd, rfl⟩ := List.mem_map.1 hmem
    exact List.mem_map_of_mem (List.mem_range.2 (Base64.lt_of_mem_sextets hd))
  refine List.all_eq_false.2 ⟨c, ?_, ?_⟩
  · rw [Option.getD_some, hcons]
    exact List.mem_cons_self
  · rw [hspace c hc]
    exact Bool.false_ne_true

/-! ## Revocations stay -/

theorem commits_step {hosts : HostRules} {publicBaseUrl : Text} {s s' : KeyDesk} {e : KeyEvent}
    (h : s.step chars tryParse hosts publicBaseUrl e = some s') : s.commits <:+ s'.commits := by
  cases e with
  | addProject id =>
    cases h
    exact List.suffix_refl _
  | createAsync r projectId label draw =>
    simp only [KeyDesk.step] at h
    split at h <;> cases h <;> exact List.suffix_refl _
  | revokeAsync r projectId keyId =>
    simp only [KeyDesk.step] at h
    split at h
    · cases h
      exact List.suffix_refl _
    · cases h
      exact List.suffix_refl _
    · split at h <;> cases h <;> exact List.suffix_refl _
  | resolve r header call =>
    simp only [KeyDesk.step] at h
    split at h <;> cases h <;> exact List.suffix_refl _
  | save r utcNow env accepted =>
    obtain ⟨request, -, rfl⟩ := Option.map_eq_some_iff.1 h
    cases request with
    | creating key =>
      simp only [KeyDesk.save]
      split
      · exact List.suffix_refl _
      · exact List.suffix_cons _ _
    | revoking keyId =>
      simp only [KeyDesk.save]
      split
      · exact List.suffix_refl _
      · exact List.suffix_cons _ _
    | admitted projectId call =>
      simp only [KeyDesk.save]
      split
      · exact List.suffix_refl _
      · split <;> exact List.suffix_refl _

theorem createdKeys_append (later earlier : List KeyCommit) :
    createdKeys (later ++ earlier) = createdKeys earlier ++ createdKeys later := by
  induction later with
  | nil => exact (List.append_nil _).symm
  | cons c later ih =>
    cases c with
    | created key => rw [List.cons_append, createdKeys, createdKeys, ih, List.append_assoc]
    | revoked keyId utcNow => exact ih

theorem revokedAt_append {keyId : Guid} {earlier : List KeyCommit} (h : revokedAt keyId earlier ≠ none) (later : List KeyCommit) :
    revokedAt keyId (later ++ earlier) ≠ none := by
  induction later with
  | nil => exact h
  | cons c later ih =>
    cases c with
    | created key => exact ih
    | revoked id utcNow =>
      rw [List.cons_append, revokedAt]
      split
      · exact Option.some_ne_none _
      · exact ih

/-- In every run of creations, revocations and calls from a database without
keys, with their queries and saves in any order: the DSN of a key names its
project, and a runtime that has it is let in, for that project, if the key has
not been revoked; nobody else is let in; a key that was revoked at any moment is
refused from then on; and the list of a project shows its keys as they stand. -/
theorem dsn_valid_until_revoked (chars : CharTable) (hspace : ∀ c ∈ urlAlphabet, chars.isWhiteSpace c = false)
    (tryParse : Text → Option Guid) (hparse : ∀ g, tryParse (guidText g).toList = some g) (hosts : HostRules) (publicBaseUrl : Text)
    (uri : Uri) (huri : Uri.tryCreate hosts publicBaseUrl = some uri)
    (hscheme : uri.scheme = "http".toList ∨ uri.scheme = "https".toList) (before : IngestDb)
    (hbefore : before.tables.apiKeys = []) (projects : List Guid) (es : List KeyEvent) (s : KeyDesk)
    (hrun : exec (KeyDesk.step chars tryParse hosts publicBaseUrl) (.initial before projects) es = some s) :
    (∀ key ∈ createdKeys s.commits, ∃ dsn,
      Dsn.parse hosts tryParse (buildDsn hosts publicBaseUrl key.publicKey key.projectId) = .ok dsn ∧ dsn.projectId = key.projectId ∧
      resolveAsync chars s.db.tables dsn.header =
        if revokedAt key.id s.commits = none then .ok (keyAfter s.commits key)
        else .error (.rpcException "Unauthenticated" "Invalid or revoked DSN.")) ∧
    (∀ header apiKey, resolveAsync chars s.db.tables header = .ok apiKey → ∃ key ∈ createdKeys s.commits,
      header = some key.publicKey ∧ revokedAt key.id s.commits = none ∧ apiKey.projectId = key.projectId) ∧
    (∀ pre t, pre <+: es → exec (KeyDesk.step chars tryParse hosts publicBaseUrl) (.initial before projects) pre = some t →
      ∀ key ∈ createdKeys t.commits, revokedAt key.id t.commits ≠ none →
        resolveAsync chars s.db.tables (some key.publicKey) =
          .error (.rpcException "Unauthenticated" "Invalid or revoked DSN.")) ∧
    (∀ projectId json, json ∈ listDsnsAsync hosts publicBaseUrl s.db.tables projectId ↔
      ∃ key ∈ createdKeys s.commits, key.projectId = projectId ∧ json = dsnJson hosts publicBaseUrl (keyAfter s.commits key)) := by
  have hi : KeyInv s := by
    refine exec_inv KeyInv (fun _ _ _ hi h => keyInv_step hi h) ?_ hrun
    exact { rows := hbefore, known := fun id hid => absurd rfl hid, drawn := fun key hkey => (by cases hkey),
            revoking := fun r id hr => (by cases hr), creating := fun r key hr => (by cases hr) }
  have hresolve : ∀ key ∈ createdKeys s.commits, resolveAsync chars s.db.tables (some key.publicKey) =
      if revokedAt key.id s.commits = none then .ok (keyAfter s.commits key)
      else .error (.rpcException "Unauthenticated" "Invalid or revoked DSN.") := by
    intro key hkey
    obtain ⟨bytes, hbytes⟩ := hi.drawn key hkey
    have hmem : keyAfter s.commits key ∈ s.db.tables.apiKeys := by
      rw [hi.rows]
      exact List.mem_map_of_mem hkey
    refine resolveAsync_row hmem ?_
    rw [show (keyAfter s.commits key).publicKey = key.publicKey from rfl, hbytes]
    exact drawn_given hspace bytes
  refine ⟨fun key hkey => ?_, fun header apiKey hok => ?_, ?_, fun projectId json => ?_⟩
  · obtain ⟨bytes, hbytes⟩ := hi.drawn key hkey
    refine ⟨_, hbytes ▸ parse_buildDsn hparse huri hscheme bytes key.projectId, rfl, ?_⟩
    rw [Dsn.header, getValue_withKey]
    exact hbytes ▸ hresolve key hkey
  · obtain ⟨hmem, hheader, hlive⟩ := resolveAsync_ok hok
    rw [hi.rows] at hmem
    obtain ⟨key, hkey, rfl⟩ := List.mem_map.1 hmem
    exact ⟨key, hkey, hheader, hlive, rfl⟩
  · rintro pre t ⟨post, rfl⟩ hpre key hkey hrevoked
    rw [exec_append, hpre, Option.bind_some] at hrun
    have hgrown : t.commits <:+ s.commits :=
      exec_inv (fun u => t.commits <:+ u.commits) (fun _ _ _ h hstep => h.trans (commits_step hstep)) (List.suffix_refl _) hrun
    obtain ⟨later, hlater⟩ := hgrown
    have hkey' : key ∈ createdKeys s.commits := by
      rw [← hlater, createdKeys_append]
      exact List.mem_append_left _ hkey
    have hrevoked' : revokedAt key.id s.commits ≠ none := hlater ▸ revokedAt_append hrevoked later
    rw [hresolve key hkey', if_neg hrevoked']
  · unfold listDsnsAsync
    rw [List.mem_map, hi.rows]
    constructor
    · rintro ⟨row, hrow, rfl⟩
      obtain ⟨hrow, hproject⟩ := List.mem_filter.1 ((OrderBy.mem_sort _).1 hrow)
      obtain ⟨key, hkey, rfl⟩ := List.mem_map.1 hrow
      exact ⟨key, hkey, of_decide_eq_true hproject, rfl⟩
    · rintro ⟨key, hkey, hproject, rfl⟩
      refine ⟨keyAfter s.commits key, (OrderBy.mem_sort _).2 (List.mem_filter.2 ⟨List.mem_map_of_mem hkey, ?_⟩), rfl⟩
      exact decide_eq_true hproject

end Keys

/-! ## Two revocations of one key -/

def noKeys : IngestDb where
  tables := ⟨[], [], [], [], [], 1⟩
  keyed := by decide

def drawOnes : KeyDraw := ⟨1, Vector.replicate 32 255, 5⟩

/-- A call is let in, both revocations read the key, and all three go on after that. -/
def revokedTwice : List KeyEvent :=
  [.addProject 7, .createAsync 0 7 (some " prod ".toList) drawOnes, .save 0 5 tenantEnv true,
    .resolve 1 (some (newPublicKey drawOnes.bytes)) (.sendLogs []), .revokeAsync 2 7 1, .revokeAsync 3 7 1,
    .save 2 6 tenantEnv true, .save 3 8 tenantEnv true, .save 1 9 tenantEnv true]

def keyOfOnes : ApiKey := newApiKey ascii drawOnes 7 (some " prod ".toList)

def runRevokedTwice : Option KeyDesk :=
  exec (KeyDesk.step ascii tryParseHyphenated dnsNames "https://Dash.example.com:8091/ui".toList) (.initial noKeys []) revokedTwice

theorem urlAlphabet_plain : ∀ c ∈ urlAlphabet, ascii.isWhiteSpace c = false := by
  have hdigits : ∀ d < 64, ascii.isWhiteSpace (urlDigit d) = false := by decide +kernel
  intro c hc
  obtain ⟨d, hd, rfl⟩ := List.mem_map.1 hc
  exact hdigits d (List.mem_range.1 hd)

theorem dsn_valid_until_revoked_twice :
    ∃ s, runRevokedTwice = some s ∧ revokedAt 1 s.commits = some 8 ∧
      resolveAsync ascii s.db.tables (some keyOfOnes.publicKey) =
        .error (.rpcException "Unauthenticated" "Invalid or revoked DSN.") := by
  have hsome : runRevokedTwice.isSome = true := by decide +kernel
  have hall : runRevokedTwice.all (fun s => createdKeys s.commits = [keyOfOnes] ∧ revokedAt 1 s.commits = some 8) = true := by
    decide +kernel
  obtain ⟨s, hs⟩ := Option.isSome_iff_exists.1 hsome
  rw [hs] at hall
  obtain ⟨hcreated, hrevoked⟩ := of_decide_eq_true hall
  obtain ⟨-, -, hrefused, -⟩ := dsn_valid_until_revoked ascii urlAlphabet_plain tryParseHyphenated tryParse_guidText dnsNames
    "https://Dash.example.com:8091/ui".toList ⟨"https".toList, [], "dash.example.com".toList, 8091, "/ui".toList⟩
    (by decide +kernel) (.inr rfl) noKeys rfl [] revokedTwice s hs
  refine ⟨s, hs, hrevoked, hrefused revokedTwice s (List.prefix_refl _) hs keyOfOnes ?_ ?_⟩
  · rw [hcreated]
    exact List.mem_singleton.2 rfl
  · rw [show keyOfOnes.id = 1 from rfl, hrevoked]
    exact Option.some_ne_none _

end DuckRun.Reporting
