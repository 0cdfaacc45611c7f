import DuckRun.Dashboard.PasswordHasher
import DuckRun.Dashboard.Store
import DuckRun.Lib.Folds
import DuckRun.Lib.Machine
/-!
# Accounts

Nothing but `AuthBootstrap` creates users: a dashboard that boots on a table
without any adds the administrator of its options. The check and the insert are
two steps, so dashboards that boot at the same time may both insert. Signing in
asks for the email as the bootstrap stored it and for the stored password.
-/

namespace DuckRun.Dashboard

open DuckRun.Lib

structure UserEntity where
  id : Guid
  email : Text
  passwordHash : Text
  displayName : Text
  role : Text
  createdAt : DateTime
  lastSignInAt : Option DateTime
  deriving DecidableEq, Repr

/-- The primary key and the unique index. -/
def usersKeysOk (users : List UserEntity) : Bool := (users.map UserEntity.id).Nodup && (users.map UserEntity.email).Nodup

/-- A table never holds users that violate its keys. -/
structure UserTable where
  users : List UserEntity
  keyed : usersKeysOk users = true

/-- `DashboardOptions.Auth`. -/
structure AuthOptions where
  initialAdminEmail : Option Text
  initialAdminPassword : Option Text

structure LoginRequest where
  email : Option Text
  password : Option Text

inductive LoginAnswer where
  | badRequest (error : String)
  | unauthorized (error : String)
  | signedIn (user : UserEntity)
  deriving DecidableEq, Repr

/-- A bootstrap that was saved. -/
structure Created where
  email : Text
  password : Text
  id : Guid
  salt : List UInt8
  at_ : DateTime
  deriving DecidableEq

structure Accounts where
  table : UserTable
  /-- The options of the dashboards whose bootstrap has found no users. -/
  booting : Nat → Option (Text × Text)
  created : List Created

def Accounts.empty : Accounts := ⟨⟨[], rfl⟩, fun _ => none, []⟩

inductive AccountsEvent where
  /-- `AuthBootstrap.StartAsync` up to its query. -/
  | check (host : Nat) (auth : AuthOptions)
  /-- The insert, with the id, the salt and the time it draws. -/
  | save (host : Nat) (id : Guid) (salt : List UInt8) (utcNow : DateTime) (accepted : Bool)
  /-- The dashboard ends in between. -/
  | crash (host : Nat)
  | login (request : LoginRequest) (utcNow : DateTime) (accepted : Bool)

section Endpoints
variable (chars : CharTable) (pbkdf2 : Pbkdf2)

/-- `email.Trim().ToLowerInvariant()`. -/
def normalizeEmail (email : Text) : Text := (trim chars email).map chars.toLowerInvariant

/-- The options, when a bootstrap is configured. -/
def AuthOptions.admin (auth : AuthOptions) : Option (Text × Text) :=
  if isNullOrWhiteSpace chars auth.initialAdminEmail || isNullOrWhiteSpace chars auth.initialAdminPassword then none
  else some (auth.initialAdminEmail.getD [], auth.initialAdminPassword.getD [])

/-- The user of a bootstrap. -/
def Created.user (c : Created) : Except String UserEntity := do
  let email := normalizeEmail chars c.email
  let passwordHash ← PasswordHasher.hash chars pbkdf2 c.salt c.password
  return { id := c.id, email := email, passwordHash := passwordHash, displayName := email, role := "Admin".toList,
           createdAt := c.at_, lastSignInAt := none }

def saveUsers (accepted : Bool) (users : List UserEntity) : Option UserTable :=
  if h : usersKeysOk users = true then (if accepted then some ⟨users, h⟩ else none) else none

/-- `LoginAsync`: the answer, with the user as it would be saved. -/
def loginAsync (users : List UserEntity) (request : LoginRequest) (utcNow : DateTime) : Except String LoginAnswer :=
  if isNullOrWhiteSpace chars request.email || isNullOrWhiteSpace chars request.password then
    .ok (.badRequest "Email and password are required.")
  else
    match users.filter fun u => u.email = normalizeEmail chars (request.email.getD []) with
    | [] => .ok (.unauthorized "Invalid email or password.")
    | [user] => do
      if ← PasswordHasher.verify pbkdf2 (request.password.getD []) user.passwordHash then
        return .signedIn { user with lastSignInAt := some utcNow }
      else return .unauthorized "Invalid email or password."
    | _ => .error "Sequence contains more than one element."

/-- `MeAsync` of a signed-in request: its user by the id of the cookie. -/
def meAsync (users : List UserEntity) (id : Guid) : Option UserEntity := users.find? fun u => u.id = id

def Accounts.step (s : Accounts) : AccountsEvent → Option Accounts
  | .check host auth =>
    if s.table.users ≠ [] then some s
    else some { s with booting := Function.update s.booting host (auth.admin chars) }
  | .save host id salt utcNow accepted =>
    match s.booting host with
    | none => none
    | some (email, password) =>
      let c : Created := ⟨email, password, id, salt, utcNow⟩
      let booting := Function.update s.booting host none
      match c.user chars pbkdf2 with
      | .error _ => some { s with booting := booting }
      | .ok user =>
        match saveUsers accepted (s.table.users ++ [user]) with
        | none => some { s with booting := booting }
        | some table => some { table := table, booting := booting, created := s.created ++ [c] }
  | .crash host => some { s with booting := Function.update s.booting host none }
  | .login request utcNow accepted =>
    match loginAsync chars pbkdf2 s.table.users request utcNow with
    | .ok (.signedIn user) =>
      let users := updateKey UserEntity.id user.id (fun u => { u with lastSignInAt := user.lastSignInAt }) s.table.users
      match saveUsers accepted users with
      | none => some s
      | some table => some { s with table := table }
    | _ => some s

end Endpoints

/-- No two bootstraps overlap: a dashboard looks for users while no other is about to add one. -/
def BootsAlone (s : Accounts) (e : AccountsEvent) : Prop := ∀ host auth, e = .check host auth → ∀ other, s.booting other = none

/-! ## Users and bootstraps -/

section Invariant
variable {chars : CharTable} {pbkdf2 : Pbkdf2} {s s' : Accounts}

/-- A user but for the time of the last sign-in. -/
def UserEntity.account (u : UserEntity) : UserEntity := { u with lastSignInAt := none }

structure AccountsInv (chars : CharTable) (pbkdf2 : Pbkdf2) (s : Accounts) : Prop where
  configured : ∀ host email password, s.booting host = some (email, password) →
    isNullOrWhiteSpace chars (some email) = false ∧ isNullOrWhiteSpace chars (some password) = false
  /-- The users are those of the bootstraps saved. -/
  users : List.Forall₂ (fun u c => Created.user chars pbkdf2 c = .ok u.account) s.table.users s.created

theorem admin_configured {auth : AuthOptions} {email password : Text} (h : auth.admin chars = some (email, password)) :
    isNullOrWhiteSpace chars (some email) = false ∧ isNullOrWhiteSpace chars (some password) = false := by
  unfold AuthOptions.admin at h
  split at h
  · cases h
  · rename_i hblank
    simp only [Bool.or_eq_true, not_or, Bool.not_eq_true] at hblank
    obtain ⟨rfl, rfl⟩ := Prod.mk.inj (Option.some.inj h)
    exact hblank

theorem saveUsers_some {accepted : Bool} {users : List UserEntity} {table : UserTable} (h : saveUsers accepted users = some table) :
    table.users = users := by
  unfold saveUsers at h
  split at h
  · split at h <;> cases h
    rfl
  · cases h

/-- What saving can do. -/
theorem save_cases {host : Nat} {id : Guid} {salt : List UInt8} {utcNow : DateTime} {accepted : Bool}
    (h : s.step chars pbkdf2 (.save host id salt utcNow accepted) = some s') :
    s'.booting = Function.update s.booting host none ∧ ∃ email password, s.booting host = some (email, password) ∧
      ((s'.table = s.table ∧ s'.created = s.created) ∨
        ∃ user, Created.user chars pbkdf2 ⟨email, password, id, salt, utcNow⟩ = .ok user ∧
          s'.table.users = s.table.users ++ [user] ∧ s'.created = s.created ++ [⟨email, password, id, salt, utcNow⟩]) := by
  simp only [Accounts.step] at h
  split at h
  · cases h
  · rename_i email password hboot
    split at h
    · cases h
      exact ⟨rfl, email, password, hboot, .inl ⟨rfl, rfl⟩⟩
    · rename_i user huser
      split at h
      · cases h
        exact ⟨rfl, email, password, hboot, .inl ⟨rfl, rfl⟩⟩
      · rename_i table hsaved
        cases h
        exact ⟨rfl, email, password, hboot, .inr ⟨user, huser, saveUsers_some hsaved, rfl⟩⟩

/-- A sign-in changes no more than its user's `LastSignInAt`. -/
theorem login_step {request : LoginRequest} {utcNow : DateTime} {accepted : Bool}
    (h : s.step chars pbkdf2 (.login request utcNow accepted) = some s') :
    s'.booting = s.booting ∧ s'.created = s.created ∧ s'.table.users.map UserEntity.account = s.table.users.map UserEntity.account := by
  simp only [Accounts.step] at h
  split at h
  · split at h
    · cases h
      exact ⟨rfl, rfl, rfl⟩
    · rename_i user _ table hsaved
      cases h
      refine ⟨rfl, rfl, ?_⟩
      rw [saveUsers_some hsaved, updateKey, List.map_map]
      refine List.map_congr_left fun u _ => ?_
      simp only [Function.comp_apply]
      split <;> rfl
  · cases h
    exact ⟨rfl, rfl, rfl⟩

theorem accountsInv_step {e : AccountsEvent} (hi : AccountsInv chars pbkdf2 s) (h : s.step chars pbkdf2 e = some s') :
    AccountsInv chars pbkdf2 s' := by
  -- A bootstrap that ends leaves the others as they are.
  have hended : ∀ host other email password, Function.update s.booting host none other = some (email, password) →
      isNullOrWhiteSpace chars (some email) = false ∧ isNullOrWhiteSpace chars (some password) = false := by
    intro host other email password hother
    by_cases hsame : other = host
    · rw [hsame, Function.update_self] at hother
      cases hother
    · rw [Function.update_of_ne hsame] at hother
      exact hi.configured other email password hother
  cases e with
  | check host auth =>
    simp only [Accounts.step] at h
    split at h <;> cases h
    · exact hi
    · refine ⟨fun other email password hother => ?_, hi.users⟩
      dsimp only at hother
      by_cases hsame : other = host
      · rw [hsame, Function.update_self] at hother
        exact admin_configured hother
      · rw [Function.update_of_ne hsame] at hother
        exact hi.configured other email password hother
  | save host id salt utcNow accepted =>
    obtain ⟨hbooting, email, password, hboot, hsaved⟩ := save_cases h
    refine ⟨fun other email password hother => hended host other email password (hbooting ▸ hother), ?_⟩
    rcases hsaved with ⟨htable, hcreated⟩ | ⟨user, huser, htable, hcreated⟩
    · rw [htable, hcreated]
      exact hi.users
    · rw [htable, hcreated]
      refine List.rel_append hi.users (List.Forall₂.cons ?_ List.Forall₂.nil)
      rw [huser]
      -- The new user has not signed in yet.
      unfold Created.user at huser
      obtain ⟨_, -, huser⟩ := except_bind_ok.1 huser
      cases huser
      rfl
  | crash host =>
    cases h
    exact ⟨fun other email password hother => hended host other email password hother, hi.users⟩
  | login request utcNow accepted =>
    obtain ⟨hbooting, hcreated, haccounts⟩ := login_step h
    refine ⟨by rw [hbooting]; exact hi.configured, ?_⟩
    rw [hcreated]
    have hmap : List.Forall₂ (fun u c => Created.user chars pbkdf2 c = .ok u) (s.table.users.map UserEntity.account) s.created :=
      List.forall₂_map_left_iff.2 hi.users
    rw [← haccounts] at hmap
    exact List.forall₂_map_left_iff.1 hmap

theorem accountsInv_empty : AccountsInv chars pbkdf2 .empty := ⟨nofun, List.Forall₂.nil⟩

/-! ## Signing in -/

theorem created_user {c : Created} {u : UserEntity} (h : Created.user chars pbkdf2 c = .ok u.account) :
    u.id = c.id ∧ u.email = normalizeEmail chars c.email ∧ u.role = "Admin".toList ∧
      PasswordHasher.hash chars pbkdf2 c.salt c.password = .ok u.passwordHash := by
  unfold Created.user at h
  obtain ⟨stored, hhash, h⟩ := except_bind_ok.1 h
  have hu := Except.ok.inj h
  refine ⟨?_, ?_, ?_, ?_⟩
  · exact (congrArg UserEntity.id hu).symm
  · exact (congrArg UserEntity.email hu).symm
  · exact (congrArg UserEntity.role hu).symm
  · rw [hhash]
    exact congrArg Except.ok (congrArg UserEntity.passwordHash hu)

theorem AccountsInv.created_of_user (hi : AccountsInv chars pbkdf2 s) {u : UserEntity} (hu : u ∈ s.table.users) :
    ∃ c ∈ s.created, Created.user chars pbkdf2 c = .ok u.account := by
  obtain ⟨n, hn, rfl⟩ := List.mem_iff_getElem.1 hu
  have hn' : n < s.created.length := hi.users.length_eq ▸ hn
  exact ⟨s.created[n], List.getElem_mem hn', hi.users.get hn hn'⟩

theorem AccountsInv.user_of_created (hi : AccountsInv chars pbkdf2 s) {c : Created} (hc : c ∈ s.created) :
    ∃ u ∈ s.table.users, Created.user chars pbkdf2 c = .ok u.account := by
  obtain ⟨n, hn, rfl⟩ := List.mem_iff_getElem.1 hc
  have hn' : n < s.table.users.length := hi.users.length_eq ▸ hn
  exact ⟨s.table.users[n], List.getElem_mem hn', hi.users.get hn' hn⟩

/-- The users with an email: one at most. -/
theorem filter_email (table : UserTable) (email : Text) :
    (table.users.filter fun u => u.email = email) = [] ∨
      ∃ u ∈ table.users, u.email = email ∧ (table.users.filter fun u => u.email = email) = [u] := by
  have hk := table.keyed
  simp only [usersKeysOk, Bool.and_eq_true, decide_eq_true_eq] at hk
  cases hf : table.users.filter fun u => u.email = email with
  | nil => exact .inl rfl
  | cons u rest =>
    have hmem : ∀ x ∈ u :: rest, x ∈ table.users ∧ x.email = email := by
      intro x hx
      rw [← hf] at hx
      simpa using List.mem_filter.1 hx
    obtain ⟨hu, hemail⟩ := hmem u List.mem_cons_self
    refine .inr ⟨u, hu, hemail, ?_⟩
    have hnodup : ((u :: rest).map UserEntity.email).Nodup := by
      rw [← hf]
      exact hk.2.sublist (List.filter_sublist.map _)
    cases rest with
    | nil => rfl
    | cons x rest =>
      have hx := (hmem x (List.mem_cons_of_mem _ List.mem_cons_self)).2
      simp [hemail, hx] at hnodup

/-- What signing in comes to: it never fails, and it lets in whoever gives the email and the password of a bootstrap. -/
theorem login_iff (hi : AccountsInv chars pbkdf2 s) (request : LoginRequest) (utcNow : DateTime) :
    (∃ answer, loginAsync chars pbkdf2 s.table.users request utcNow = .ok answer) ∧
      ((∃ user, loginAsync chars pbkdf2 s.table.users request utcNow = .ok (.signedIn user)) ↔
        isNullOrWhiteSpace chars request.email = false ∧ isNullOrWhiteSpace chars request.password = false ∧
        ∃ c ∈ s.created, normalizeEmail chars (request.email.getD []) = normalizeEmail chars c.email ∧
          pbkdf2.derive (request.password.getD []) c.salt PasswordHasher.iterations PasswordHasher.hashBytes =
            pbkdf2.derive c.password c.salt PasswordHasher.iterations PasswordHasher.hashBytes) := by
  unfold loginAsync
  split
  · rename_i hblank
    refine ⟨⟨_, rfl⟩, ⟨fun ⟨user, h⟩ => (by cases h), fun ⟨hemail, hpassword, _⟩ => ?_⟩⟩
    rw [hemail, hpassword] at hblank
    cases hblank
  · rename_i hblank
    simp only [Bool.or_eq_true, not_or, Bool.not_eq_true] at hblank
    obtain ⟨hblankEmail, hblankPassword⟩ := hblank
    have hpassword : request.password.getD [] ≠ [] := by
      intro hnil
      rw [isNullOrWhiteSpace, hnil] at hblankPassword
      cases hblankPassword
    rcases filter_email s.table (normalizeEmail chars (request.email.getD [])) with hnone | ⟨u, hu, hemail, hone⟩
    · rw [hnone]
      refine ⟨⟨_, rfl⟩, ⟨fun ⟨user, h⟩ => (by cases h), fun ⟨_, _, c, hc, hsame, _⟩ => ?_⟩⟩
      -- The user of that bootstrap has the email.
      obtain ⟨u, hu, huser⟩ := hi.user_of_created hc
      have hemail := (created_user huser).2.1.trans hsame.symm
      exact absurd (List.filter_eq_nil_iff.1 hnone u hu) (by simpa using hemail)
    · -- Every bootstrap with the email is the user's, so its password is the stored one.
      have hverify : ∀ c ∈ s.created, normalizeEmail chars (request.email.getD []) = normalizeEmail chars c.email →
          PasswordHasher.verify pbkdf2 (request.password.getD []) u.passwordHash = .ok (decide (request.password.getD [] ≠ [] ∧
            pbkdf2.derive (request.password.getD []) c.salt PasswordHasher.iterations PasswordHasher.hashBytes =
              pbkdf2.derive c.password c.salt PasswordHasher.iterations PasswordHasher.hashBytes)) := by
        intro c hc hsame
        obtain ⟨u', hu', huser⟩ := hi.user_of_created hc
        obtain ⟨-, hcemail, -, hhash⟩ := created_user huser
        have hmem : u' ∈ s.table.users.filter fun u => u.email = normalizeEmail chars (request.email.getD []) :=
          List.mem_filter.2 ⟨hu', by simpa using hcemail.trans hsame.symm⟩
        rw [hone, List.mem_singleton] at hmem
        exact PasswordHasher.verify_hash chars pbkdf2 (hmem ▸ hhash) (request.password.getD [])
      obtain ⟨c, hc, huser⟩ := hi.created_of_user hu
      have hsame := hemail.symm.trans (created_user huser).2.1
      rw [hone]
      dsimp only
      rw [hverify c hc hsame]
      by_cases hderived : pbkdf2.derive (request.password.getD []) c.salt PasswordHasher.iterations PasswordHasher.hashBytes =
          pbkdf2.derive c.password c.salt PasswordHasher.iterations PasswordHasher.hashBytes
      · rw [decide_eq_true ⟨hpassword, hderived⟩]
        exact ⟨⟨_, rfl⟩, ⟨fun _ => ⟨hblankEmail, hblankPassword, c, hc, hsame, hderived⟩, fun _ => ⟨_, rfl⟩⟩⟩
      · rw [decide_eq_false fun hboth => hderived hboth.2]
        refine ⟨⟨_, rfl⟩, ⟨fun ⟨user, h⟩ => (by cases h), fun ⟨_, _, c', hc', hsame', hderived'⟩ => ?_⟩⟩
        have hsamestored := (hverify c hc hsame).symm.trans (hverify c' hc' hsame')
        rw [decide_eq_false fun hboth => hderived hboth.2, decide_eq_true ⟨hpassword, hderived'⟩] at hsamestored
        cases hsamestored

/-! ## Bootstraps that do not overlap -/

/-- One bootstrap at a time: while one is under way there is no user, and afterwards there is one. -/
structure AloneInv (s : Accounts) : Prop where
  single : ∀ host other, s.booting host ≠ none → s.booting other ≠ none → other = host
  empty : ∀ host, s.booting host ≠ none → s.created = []
  one : s.created.length ≤ 1

theorem aloneInv_ended {host : Nat} (hi : AloneInv s) (hboot : s.booting host ≠ none) (other : Nat) :
    Function.update s.booting host none other = none := by
  by_cases hsame : other = host
  · rw [hsame, Function.update_self]
  · rw [Function.update_of_ne hsame]
    by_contra hother
    exact hsame (hi.single host other hboot hother)

theorem aloneInv_step {e : AccountsEvent} (hi : AccountsInv chars pbkdf2 s) (ha : AloneInv s) (halone : BootsAlone s e)
    (h : s.step chars pbkdf2 e = some s') : AloneInv s' := by
  cases e with
  | check host auth =>
    have hnone := halone host auth rfl
    simp only [Accounts.step] at h
    split at h <;> cases h
    · exact ha
    · rename_i husers
      have hcreated : s.created = [] := by
        have hlength := hi.users.length_eq
        rw [of_not_not husers] at hlength
        exact List.length_eq_zero_iff.1 hlength.symm
      refine ⟨fun a b hb hother => ?_, fun _ _ => hcreated, ha.one⟩
      dsimp only at hb hother
      have hhost : ∀ x, Function.update s.booting host (auth.admin chars) x ≠ none → x = host := by
        intro x hx
        by_contra hne
        rw [Function.update_of_ne hne] at hx
        exact hx (hnone x)
      rw [hhost a hb, hhost b hother]
  | save host id salt utcNow accepted =>
    obtain ⟨hbooting, email, password, hboot, hsaved⟩ := save_cases h
    have hsome : s.booting host ≠ none := by rw [hboot]; exact Option.some_ne_none _
    have hnone : ∀ other, s'.booting other = none := fun other => by rw [hbooting]; exact aloneInv_ended ha hsome other
    refine ⟨fun a _ hb _ => absurd (hnone a) hb, fun a hb => absurd (hnone a) hb, ?_⟩
    rcases hsaved with ⟨-, hcreated⟩ | ⟨user, -, -, hcreated⟩
    · rw [hcreated]
      exact ha.one
    · rw [hcreated, ha.empty host hsome]
      exact Nat.le_refl 1
  | crash host =>
    cases h
    have hbefore : ∀ other, Function.update s.booting host none other ≠ none → s.booting other ≠ none := by
      intro other hother
      by_cases hsame : other = host
      · rw [hsame, Function.update_self] at hother
        exact absurd rfl hother
      · rwa [Function.update_of_ne hsame] at hother
    exact ⟨fun a b hb hother => ha.single a b (hbefore a hb) (hbefore b hother), fun a hb => ha.empty a (hbefore a hb), ha.one⟩
  | login request utcNow accepted =>
    obtain ⟨hbooting, hcreated, -⟩ := login_step h
    exact ⟨by rw [hbooting]; exact ha.single, by rw [hbooting, hcreated]; exact ha.empty, by rw [hcreated]; exact ha.one⟩

/-! ## Accounts stay -/

/-- What a later state keeps. -/
def Accounts.Keeps (s s' : Accounts) : Prop :=
  s.created <+: s'.created ∧ s.table.users.map UserEntity.account <+: s'.table.users.map UserEntity.account

theorem keeps_refl (s : Accounts) : s.Keeps s := ⟨List.prefix_rfl, List.prefix_rfl⟩

theorem keeps_step {e : AccountsEvent} (h : s.step chars pbkdf2 e = some s') : s.Keeps s' := by
  cases e with
  | check host auth =>
    simp only [Accounts.step] at h
    split at h <;> cases h <;> exact keeps_refl s
  | save host id salt utcNow accepted =>
    obtain ⟨-, _, _, -, ⟨htable, hcreated⟩ | ⟨user, -, htable, hcreated⟩⟩ := save_cases h
    · rw [Accounts.Keeps, htable, hcreated]
      exact keeps_refl s
    · rw [Accounts.Keeps, htable, hcreated, List.map_append]
      exact ⟨List.prefix_append _ _, List.prefix_append _ _⟩
  | crash host =>
    cases h
    exact keeps_refl s
  | login request utcNow accepted =>
    obtain ⟨-, hcreated, haccounts⟩ := login_step h
    rw [Accounts.Keeps, hcreated, haccounts]
    exact keeps_refl s

theorem keeps_exec {es : List AccountsEvent} (h : exec (Accounts.step chars pbkdf2) s es = some s') : s.Keeps s' := by
  refine exec_inv (fun t => s.Keeps t) (fun t e t' ht hstep => ?_) (keeps_refl s) h
  have hnext := keeps_step hstep
  exact ⟨ht.1.trans hnext.1, ht.2.trans hnext.2⟩

theorem signedIn_account {users : List UserEntity} {request : LoginRequest} {utcNow : DateTime} {user : UserEntity}
    (h : loginAsync chars pbkdf2 users request utcNow = .ok (.signedIn user)) : user.account ∈ users.map UserEntity.account := by
  unfold loginAsync at h
  split at h
  · cases h
  · split at h
    · cases h
    · rename_i u hone
      have hu : u ∈ users := List.mem_of_mem_filter (hone ▸ List.mem_singleton_self u)
      obtain ⟨verified, -, h⟩ := except_bind_ok.1 h
      split at h <;> cases h
      exact List.mem_map.2 ⟨u, hu, rfl⟩
    · cases h

/-- The user of an account is found by its id. -/
theorem meAsync_of_mem (table : UserTable) {account : UserEntity} (h : account ∈ table.users.map UserEntity.account) :
    ∃ me, meAsync table.users account.id = some me ∧ me.account = account := by
  obtain ⟨u, hu, rfl⟩ := List.mem_map.1 h
  have hk := table.keyed
  simp only [usersKeysOk, Bool.and_eq_true, decide_eq_true_eq] at hk
  unfold meAsync
  cases hfind : table.users.find? fun x => x.id = u.account.id with
  | none =>
    exact absurd (decide_eq_true rfl) (List.find?_eq_none.1 hfind u hu)
  | some me =>
    have hfound := List.find?_some hfind
    have hid : me.id = u.id := of_decide_eq_true hfound
    exact ⟨me, rfl, by rw [List.inj_on_of_nodup_map hk.1 (List.mem_of_find?_eq_some hfind) hu hid]⟩

/-- In every run of dashboards that boot, at the same time or not, and of sign-ins:
signing in never fails, and lets in exactly who gives the email and the password
of a bootstrap that was saved; these stay, and whoever signed in is found as the
same user ever after; and while no two bootstraps overlap there is one at most. -/
theorem accounts_follow_bootstraps (chars : CharTable) (pbkdf2 : Pbkdf2) (es : List AccountsEvent) (s : Accounts)
    (hrun : exec (Accounts.step chars pbkdf2) .empty es = some s) :
    (∀ request utcNow, (∃ answer, loginAsync chars pbkdf2 s.table.users request utcNow = .ok answer) ∧
      ((∃ user, loginAsync chars pbkdf2 s.table.users request utcNow = .ok (.signedIn user)) ↔
        isNullOrWhiteSpace chars request.email = false ∧ isNullOrWhiteSpace chars request.password = false ∧
        ∃ c ∈ s.created, normalizeEmail chars (request.email.getD []) = normalizeEmail chars c.email ∧
          pbkdf2.derive (request.password.getD []) c.salt PasswordHasher.iterations PasswordHasher.hashBytes =
            pbkdf2.derive c.password c.salt PasswordHasher.iterations PasswordHasher.hashBytes)) ∧
      (∀ fs s', exec (Accounts.step chars pbkdf2) s fs = some s' → s.created <+: s'.created ∧
        ∀ request utcNow user, loginAsync chars pbkdf2 s.table.users request utcNow = .ok (.signedIn user) →
          ∃ me, meAsync s'.table.users user.id = some me ∧ me.account = user.account) ∧
      (Along (Accounts.step chars pbkdf2) BootsAlone .empty es → s.created.length ≤ 1) := by
  have hi : AccountsInv chars pbkdf2 s :=
    exec_inv (AccountsInv chars pbkdf2) (fun _ _ _ => accountsInv_step) accountsInv_empty hrun
  refine ⟨login_iff hi, fun fs s' hcontinued => ?_, fun halone => ?_⟩
  · obtain ⟨hcreated, haccounts⟩ := keeps_exec hcontinued
    refine ⟨hcreated, fun request utcNow user hlogin => ?_⟩
    exact meAsync_of_mem s'.table (haccounts.subset (signedIn_account hlogin))
  · have hboth : AccountsInv chars pbkdf2 s ∧ AloneInv s := by
      refine exec_inv_along BootsAlone (fun s => AccountsInv chars pbkdf2 s ∧ AloneInv s) ?_ ?_ halone hrun
      · exact fun s e s' ⟨hi, ha⟩ halone hstep => ⟨accountsInv_step hi hstep, aloneInv_step hi ha halone hstep⟩
      · exact ⟨accountsInv_empty, ⟨fun _ _ h => absurd rfl h, fun _ h => absurd rfl h, Nat.zero_le 1⟩⟩
    exact hboth.2.one

/-- A derivation to compute with: the password itself. -/
def plainKeys : Pbkdf2 where
  derive password _ _ n := (password.map (fun c : Char => UInt8.ofNat c.toNat) ++ List.replicate n 0).take n
  length_derive password _ _ n := by simp

def annBoot : Created := ⟨" Ann@x ".toList, "one".toList, 10, [1, 2], 5⟩
def bobBoot : Created := ⟨"bob@x".toList, "two".toList, 11, [3], 6⟩

/-- Two dashboards boot at the same time: both add their administrator. -/
def runTwoBoots : Option Accounts :=
  exec (Accounts.step ascii plainKeys) .empty
    [.check 0 ⟨some annBoot.email, some annBoot.password⟩, .check 1 ⟨some bobBoot.email, some bobBoot.password⟩,
     .save 0 annBoot.id annBoot.salt annBoot.at_ true, .save 1 bobBoot.id bobBoot.salt bobBoot.at_ true,
     .login ⟨some "ann@X".toList, some "one".toList⟩ 7 true]

theorem accounts_follow_twoBoots : ∃ s, runTwoBoots = some s ∧ s.created = [annBoot, bobBoot] ∧
    ∃ user, loginAsync ascii plainKeys s.table.users ⟨some "BOB@x ".toList, some "two".toList⟩ 9 = .ok (.signedIn user) := by
  have hsome : runTwoBoots.isSome = true := by decide +kernel
  have hall : runTwoBoots.all (fun s => s.created = [annBoot, bobBoot]) = true := by decide +kernel
  obtain ⟨s, hs⟩ := Option.isSome_iff_exists.1 hsome
  rw [hs] at hall
  have hcreated : s.created = [annBoot, bobBoot] := of_decide_eq_true hall
  refine ⟨s, hs, hcreated, ?_⟩
  have hlogin := (accounts_follow_bootstraps ascii plainKeys _ s hs).1 ⟨some "BOB@x ".toList, some "two".toList⟩ 9
  refine hlogin.2.2 ⟨by decide, by decide, bobBoot, ?_, by decide, rfl⟩
  rw [hcreated]
  exact List.mem_cons_of_mem _ List.mem_cons_self

end Invariant

end DuckRun.Dashboard
