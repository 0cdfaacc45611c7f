import DuckRun.Lib.Digits
/-!
# Uniform resource identifiers

The split of RFC 3986 into scheme, user info, host, port and path, the scheme
in lower case, and the default ports. What an implementation does to the host
(case, the spellings of an address) is a parameter that has to leave its own
results alone and free of delimiters. Query and fragment are cut off.
-/

namespace DuckRun.Lib

/-- How hosts are checked and normalized. -/
structure HostRules where
  normalize : List Char → Option (List Char)
  normalize_again : ∀ {h h'}, normalize h = some h' → normalize h' = some h'
  plain : ∀ {h h'}, normalize h = some h' → ∀ c ∈ h', c ≠ '/' ∧ c ≠ '?' ∧ c ≠ '#' ∧ c ≠ '@'
  /-- An IP literal ends at its bracket. -/
  literal : ∀ {h h'}, normalize h = some ('[' :: h') → ∃ inner, h' = inner ++ [']'] ∧ ']' ∉ inner
  name : ∀ {h h'}, normalize h = some h' → h'.head? ≠ some '[' → ':' ∉ h'

structure Uri where
  scheme : List Char
  userInfo : List Char
  host : List Char
  /-- -1 where the scheme has no default. -/
  port : Int
  absolutePath : List Char
  deriving DecidableEq, Repr

namespace Uri

def defaultPort (scheme : List Char) : Int :=
  if scheme = "http".toList ∨ scheme = "ws".toList then 80
  else if scheme = "https".toList ∨ scheme = "wss".toList then 443
  else if scheme = "ftp".toList then 21
  else -1

def isDefaultPort (uri : Uri) : Bool := uri.port = defaultPort uri.scheme

def isSchemeChar (c : Char) : Bool := c.isAlphanum || c = '+' || c = '-' || c = '.'

def validScheme (scheme : List Char) : Bool := (scheme.head?.any Char.isAlpha) && scheme.all isSchemeChar

/-- Not the end of an authority. -/
def inAuthority (c : Char) : Bool := c ≠ '/' && c ≠ '?' && c ≠ '#'

/-- `[userinfo@]`. -/
def splitUserInfo (authority : List Char) : List Char × List Char :=
  if '@' ∈ authority then (authority.takeWhile (· ≠ '@'), (authority.dropWhile (· ≠ '@')).drop 1) else ([], authority)

/-- The host, and what follows it. -/
def splitHost : List Char → List Char × List Char
  | '[' :: rest =>
    ('[' :: rest.takeWhile (· ≠ ']') ++ (rest.dropWhile (· ≠ ']')).take 1, (rest.dropWhile (· ≠ ']')).drop 1)
  | hostport => (hostport.takeWhile (· ≠ ':'), hostport.dropWhile (· ≠ ':'))

/-- `[:port]`. -/
def parsePort (scheme : List Char) : List Char → Option Int
  | [] | [':'] => some (defaultPort scheme)
  | ':' :: digits =>
    if digits.all Char.isDigit ∧ Nat.ofDigitChars 10 digits 0 ≤ 65535 then some (Nat.ofDigitChars 10 digits 0) else none
  | _ => none

/-- What follows `scheme://`. -/
def parseAuthority (hosts : HostRules) (scheme rest : List Char) : Option Uri := do
  let (userInfo, hostport) := splitUserInfo (rest.takeWhile inAuthority)
  let (host, portPart) := splitHost hostport
  let host ← hosts.normalize host
  let port ← parsePort scheme portPart
  let path := (rest.dropWhile inAuthority).takeWhile fun c => c ≠ '?' && c ≠ '#'
  if host = [] ∧ defaultPort scheme ≠ -1 then none
  else return ⟨scheme, userInfo, host, port, if path = [] then ['/'] else path⟩

/-- What follows the scheme. `mailto:` and the like have no authority; the
schemes with a default port must have one. -/
def parseRest (hosts : HostRules) (scheme : List Char) : List Char → Option Uri
  | ':' :: '/' :: '/' :: rest => parseAuthority hosts scheme rest
  | ':' :: rest => if defaultPort scheme = -1 then some ⟨scheme, [], [], -1, rest⟩ else none
  | _ => none

/-- `Uri.TryCreate(s, UriKind.Absolute)`. -/
def tryCreate (hosts : HostRules) (s : List Char) : Option Uri :=
  let scheme := (s.takeWhile (· ≠ ':')).map Char.toLower
  if validScheme scheme then parseRest hosts scheme (s.dropWhile (· ≠ ':')) else none

/-- The number in C#'s invariant format. -/
def portText (port : Int) : List Char :=
  if port < 0 then '-' :: Nat.toDigits 10 port.natAbs else Nat.toDigits 10 port.toNat

/-! ## Splitting what was put together -/

/-- The first character that does not meet `p` ends the part. -/
theorem split_at {p : Char → Bool} {a b : List Char} {x : Char} (ha : ∀ c ∈ a, p c = true) (hx : p x = false) :
    (a ++ x :: b).takeWhile p = a ∧ (a ++ x :: b).dropWhile p = x :: b := by
  rw [List.takeWhile_append_of_pos ha, List.dropWhile_append_of_pos ha, List.takeWhile_cons_of_neg (by simp [hx]),
    List.dropWhile_cons_of_neg (by simp [hx]), List.append_nil]
  exact ⟨rfl, rfl⟩

theorem takeWhile_all {p : Char → Bool} {a : List Char} (ha : ∀ c ∈ a, p c = true) : a.takeWhile p = a ∧ a.dropWhile p = [] :=
  ⟨List.takeWhile_eq_self_iff.2 ha, List.dropWhile_eq_nil_iff.2 ha⟩

theorem splitUserInfo_at {userInfo rest : List Char} (h : '@' ∉ userInfo) :
    splitUserInfo (userInfo ++ '@' :: rest) = (userInfo, rest) := by
  have hall : ∀ c ∈ userInfo, decide (c ≠ '@') = true := fun c hc => decide_eq_true fun heq => h (heq ▸ hc)
  obtain ⟨htake, hdrop⟩ := @split_at (fun c => decide (c ≠ '@')) userInfo rest '@' hall (by decide)
  rw [splitUserInfo, if_pos (List.mem_append_right _ List.mem_cons_self), htake, hdrop]
  rfl

/-- A normalized host is found again, before nothing or a port. -/
theorem splitHost_normalized (hosts : HostRules) {h host port : List Char} (hhost : hosts.normalize h = some host)
    (hport : port = [] ∨ port.head? = some ':') : splitHost (host ++ port) = (host, port) := by
  by_cases hhead : host.head? = some '['
  · obtain ⟨rest, rfl⟩ : ∃ rest, host = '[' :: rest := by
      cases host with
      | nil => cases hhead
      | cons c rest =>
        cases Option.some.inj hhead
        exact ⟨rest, rfl⟩
    obtain ⟨inner, rfl, hinner⟩ := hosts.literal hhost
    have hall : ∀ c ∈ inner, decide (c ≠ ']') = true := fun c hc => decide_eq_true fun heq => hinner (heq ▸ hc)
    obtain ⟨htake, hdrop⟩ := @split_at (fun c => decide (c ≠ ']')) inner port ']' hall (by decide)
    simp only [List.cons_append, List.append_assoc, List.nil_append, splitHost]
    rw [htake, hdrop]
    simp
  · have hname := hosts.name hhost hhead
    have hall : ∀ c ∈ host, decide (c ≠ ':') = true := fun c hc => decide_eq_true fun heq => hname (heq ▸ hc)
    have hsplit : splitHost (host ++ port) = ((host ++ port).takeWhile (· ≠ ':'), (host ++ port).dropWhile (· ≠ ':')) := by
      unfold splitHost
      split
      · rename_i rest heq
        rcases hport with rfl | hport
        · rw [List.append_nil] at heq
          rw [heq] at hhead
          exact absurd rfl hhead
        · cases host with
          | nil =>
            rw [List.nil_append] at heq
            rw [heq] at hport
            cases hport
          | cons c host =>
            cases heq
            exact absurd rfl hhead
      · rfl
    rw [hsplit]
    rcases hport with rfl | hport
    · rw [List.append_nil, (takeWhile_all hall).1, (takeWhile_all hall).2]
    · cases port with
      | nil => cases hport
      | cons c port =>
        cases Option.some.inj hport
        obtain ⟨htake, hdrop⟩ := @split_at (fun c => decide (c ≠ ':')) host port ':' hall (by decide)
        rw [htake, hdrop]

theorem parsePort_digits (scheme : List Char) {n : Nat} (hn : n ≤ 65535) :
    parsePort scheme (':' :: Nat.toDigits 10 n) = some (n : Int) := by
  have hall : (Nat.toDigits 10 n).all Char.isDigit = true :=
    List.all_eq_true.2 fun c hc => Nat.isDigit_of_mem_toDigits (by decide) (by decide) hc
  cases hdigits : Nat.toDigits 10 n with
  | nil => exact absurd hdigits Nat.toDigits_ne_nil
  | cons d ds =>
    have hvalue : Nat.ofDigitChars 10 (d :: ds) 0 = n := by
      rw [← hdigits]
      exact Nat.ofDigitChars_ten_toDigits
    rw [hdigits] at hall
    have hdef : parsePort scheme (':' :: d :: ds) = if (d :: ds).all Char.isDigit ∧ Nat.ofDigitChars 10 (d :: ds) 0 ≤ 65535 then
        some (Nat.ofDigitChars 10 (d :: ds) 0 : Int) else none := rfl
    rw [hdef, hvalue, if_pos ⟨hall, hn⟩]

/-- `:port`, left out where it is the default. -/
def portSuffix (uri : Uri) : List Char := if uri.isDefaultPort then [] else ':' :: portText uri.port

/-- An effective port that can be written down. -/
def ValidPort (scheme : List Char) (port : Int) : Prop := port = defaultPort scheme ∨ ∃ n : Nat, n ≤ 65535 ∧ port = n

theorem parsePort_portSuffix {uri : Uri} (h : ValidPort uri.scheme uri.port) :
    parsePort uri.scheme uri.portSuffix = some uri.port := by
  unfold portSuffix
  by_cases hdefault : uri.isDefaultPort = true
  · rw [if_pos hdefault, of_decide_eq_true hdefault]
    rfl
  · rw [if_neg hdefault]
    rcases h with h | ⟨n, hn, h⟩
    · exact absurd (decide_eq_true h) hdefault
    · rw [h, portText, if_neg (by omega), Int.toNat_natCast]
      exact parsePort_digits _ hn

theorem portSuffix_head (uri : Uri) : uri.portSuffix = [] ∨ uri.portSuffix.head? = some ':' := by
  unfold portSuffix
  split
  · exact .inl rfl
  · exact .inr rfl

theorem parsePort_valid {scheme portPart : List Char} {port : Int} (h : parsePort scheme portPart = some port) :
    ValidPort scheme port := by
  unfold parsePort at h
  split at h
  · cases h
    exact .inl rfl
  · cases h
    exact .inl rfl
  · obtain ⟨⟨-, hle⟩, h⟩ := Option.ite_none_right_eq_some.1 h
    cases h
    exact .inr ⟨_, hle, rfl⟩
  · cases h

/-! ## A URI as a text -/

/-- `scheme://userinfo@host[:port]/path`. -/
def text (uri : Uri) : List Char :=
  uri.scheme ++ ':' :: '/' :: '/' :: (uri.userInfo ++ '@' :: (uri.host ++ uri.portSuffix) ++ uri.absolutePath)

/-- The parts are such that a URI can have them. -/
structure Proper (hosts : HostRules) (uri : Uri) : Prop where
  scheme : validScheme uri.scheme = true
  lower : uri.scheme.map Char.toLower = uri.scheme
  userInfo : ∀ c ∈ uri.userInfo, inAuthority c = true ∧ c ≠ '@'
  host : hosts.normalize uri.host = some uri.host
  host_ne : uri.host ≠ []
  port : ValidPort uri.scheme uri.port
  path : uri.absolutePath.head? = some '/'
  path_plain : ∀ c ∈ uri.absolutePath, c ≠ '?' ∧ c ≠ '#'

theorem isSchemeChar_ne_colon {c : Char} (h : isSchemeChar c = true) : c ≠ ':' := by
  rintro rfl
  cases h

theorem inAuthority_iff {c : Char} : inAuthority c = true ↔ c ≠ '/' ∧ c ≠ '?' ∧ c ≠ '#' := by
  simp [inAuthority, and_assoc]

theorem inAuthority_digit {c : Char} (h : c.isDigit = true) : inAuthority c = true := by
  refine inAuthority_iff.2 ⟨?_, ?_, ?_⟩ <;> rintro rfl <;> cases h

theorem inAuthority_portText (port : Int) : ∀ c ∈ portText port, inAuthority c = true := by
  intro c hc
  unfold portText at hc
  split at hc
  · rcases List.mem_cons.1 hc with rfl | hc
    · rfl
    · exact inAuthority_digit (Nat.isDigit_of_mem_toDigits (by decide) (by decide) hc)
  · exact inAuthority_digit (Nat.isDigit_of_mem_toDigits (by decide) (by decide) hc)

theorem inAuthority_portSuffix (uri : Uri) : ∀ c ∈ uri.portSuffix, inAuthority c = true := by
  intro c hc
  unfold portSuffix at hc
  split at hc
  · cases hc
  · rcases List.mem_cons.1 hc with rfl | hc
    · rfl
    · exact inAuthority_portText _ c hc

/-- A URI is read back from its text. -/
theorem tryCreate_text {hosts : HostRules} {uri : Uri} (h : Proper hosts uri) : tryCreate hosts uri.text = some uri := by
  have hcolon : ∀ c ∈ uri.scheme, decide (c ≠ ':') = true := by
    intro c hc
    have hall := (Bool.and_eq_true _ _ ▸ h.scheme).2
    exact decide_eq_true (isSchemeChar_ne_colon (List.all_eq_true.1 hall c hc))
  have hplain : ∀ c ∈ uri.host, inAuthority c = true := fun c hc =>
    inAuthority_iff.2 ⟨(hosts.plain h.host c hc).1, (hosts.plain h.host c hc).2.1, (hosts.plain h.host c hc).2.2.1⟩
  have hauthority : ∀ c ∈ uri.userInfo ++ '@' :: (uri.host ++ uri.portSuffix), inAuthority c = true := by
    intro c hc
    rcases List.mem_append.1 hc with hc | hc
    · exact (h.userInfo c hc).1
    · rcases List.mem_cons.1 hc with rfl | hc
      · rfl
      · rcases List.mem_append.1 hc with hc | hc
        · exact hplain c hc
        · exact inAuthority_portSuffix uri c hc
  obtain ⟨path, hpath⟩ : ∃ path, uri.absolutePath = '/' :: path := by
    cases hp : uri.absolutePath with
    | nil =>
      have hhead := h.path
      rw [hp] at hhead
      cases hhead
    | cons c path =>
      have hhead := h.path
      rw [hp] at hhead
      cases Option.some.inj hhead
      exact ⟨path, rfl⟩
  have huser : '@' ∉ uri.userInfo := fun hmem => (h.userInfo '@' hmem).2 rfl
  have hpathAll : ∀ c ∈ uri.absolutePath, (decide (c ≠ '?') && decide (c ≠ '#')) = true := by
    intro c hc
    simp [h.path_plain c hc]
  obtain ⟨htakeScheme, hdropScheme⟩ := @split_at (fun c => decide (c ≠ ':')) uri.scheme
    ('/' :: '/' :: (uri.userInfo ++ '@' :: (uri.host ++ uri.portSuffix) ++ uri.absolutePath)) ':' hcolon (by decide)
  obtain ⟨htake, hdrop⟩ := @split_at inAuthority (uri.userInfo ++ '@' :: (uri.host ++ uri.portSuffix)) path '/' hauthority rfl
  rw [← hpath] at htake hdrop
  have hpathNe : uri.absolutePath ≠ [] := by
    rw [hpath]
    exact List.cons_ne_nil _ _
  have hrest : parseAuthority hosts uri.scheme (uri.userInfo ++ '@' :: (uri.host ++ uri.portSuffix) ++ uri.absolutePath) =
      some uri := by
    unfold parseAuthority
    rw [htake, hdrop, splitUserInfo_at huser]
    dsimp only
    rw [splitHost_normalized hosts h.host (portSuffix_head uri)]
    dsimp only
    rw [h.host, parsePort_portSuffix h.port, (takeWhile_all hpathAll).1, if_neg hpathNe]
    simp [h.host_ne]
  unfold tryCreate text
  rw [htakeScheme, hdropScheme, h.lower, if_pos h.scheme]
  exact hrest

/-- What is known of a URI with a scheme that has a default port. -/
theorem tryCreate_some {hosts : HostRules} {s : List Char} {uri : Uri} (h : tryCreate hosts s = some uri)
    (hdefault : defaultPort uri.scheme ≠ -1) :
    (∃ c ∈ s, c.toLower.isAlpha = true) ∧ validScheme uri.scheme = true ∧ uri.scheme.map Char.toLower = uri.scheme ∧
      hosts.normalize uri.host = some uri.host ∧ uri.host ≠ [] ∧ ValidPort uri.scheme uri.port := by
  unfold tryCreate at h
  dsimp only at h
  obtain ⟨hvalid, h⟩ := Option.ite_none_right_eq_some.1 h
  have hlower : ((s.takeWhile (· ≠ ':')).map Char.toLower).map Char.toLower = (s.takeWhile (· ≠ ':')).map Char.toLower := by
    rw [List.map_map]
    exact List.map_congr_left fun c _ => Char.toLower_toLower_eq_toLower c
  have hletter : ∃ c ∈ s, c.toLower.isAlpha = true := by
    obtain ⟨c, hc, halpha⟩ := (Option.any_eq_true _ _).1 (Bool.and_eq_true _ _ ▸ hvalid).1
    obtain ⟨c', hc', rfl⟩ := List.mem_map.1 (List.mem_of_mem_head? hc)
    exact ⟨c', (List.takeWhile_sublist _).subset hc', halpha⟩
  unfold parseRest at h
  split at h
  · rename_i rest hrest
    unfold parseAuthority at h
    simp only [Option.bind_eq_bind, Option.bind_eq_some_iff] at h
    obtain ⟨host, hhost, port, hport, h⟩ := h
    split at h
    · cases h
    · rename_i hne
      cases h
      refine ⟨hletter, hvalid, hlower, hosts.normalize_again hhost, fun hnil => hne ⟨hnil, hdefault⟩, parsePort_valid hport⟩
  · obtain ⟨heq, h⟩ := Option.ite_none_right_eq_some.1 h
    cases h
    exact absurd heq hdefault
  · cases h

end Uri

end DuckRun.Lib
