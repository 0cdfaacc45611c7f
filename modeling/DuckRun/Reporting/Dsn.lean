import DuckRun.Dashboard.Guids
import DuckRun.Runtime.Jobs
import DuckRun.Lib.Base64
import DuckRun.Lib.Uri
/-!
# DSNs

The dashboard writes a DSN with `BuildDsn`, the runtime reads it with
`Dsn.Parse`. The public key in it is 32 random bytes in base64url, whose
characters are no delimiters of a URI.
-/

namespace DuckRun.Reporting

open DuckRun.Lib DuckRun.Dashboard

/-! ## `ApiKeyGenerator` -/

/-- `string.Replace(char, char)`. -/
def replaceChar (old new : Char) (s : Text) : Text := s.map fun c => if c = old then new else c

def base64UrlEncode (bytes : List UInt8) : Text :=
  replaceChar '/' '_' (replaceChar '+' '-' ((Base64.toBase64String bytes).rdropWhile (· = '=')))

/-- `NewPublicKey`, for the bytes drawn. -/
def newPublicKey (bytes : Vector UInt8 32) : Text := base64UrlEncode bytes.toList

/-! ## `DsnEndpoints` -/

section Build
variable (hosts : HostRules)

def buildDsn (publicBaseUrl publicKey : Text) (projectId : Guid) : Text :=
  if Runtime.isNullOrWhiteSpace publicBaseUrl then []
  else
    match Uri.tryCreate hosts publicBaseUrl with
    | none => []
    | some uri =>
      let port := if uri.isDefaultPort then [] else ':' :: Uri.portText uri.port
      uri.scheme ++ "://".toList ++ publicKey ++ "@".toList ++ uri.host ++ port ++ "/".toList ++ (guidText projectId).toList

end Build

/-! ## `Dsn` -/

structure Dsn where
  scheme : Text
  host : Text
  port : Int
  publicKey : Text
  projectId : Guid
  deriving DecidableEq, Repr

inductive DsnException where
  | argument (message : String)
  | format (message : String)
  deriving DecidableEq, Repr

def Dsn.parse (hosts : HostRules) (tryParse : Text → Option Guid) (raw : Text) : Except DsnException Dsn :=
  if Runtime.isNullOrWhiteSpace raw then .error (.argument "DSN is empty.")
  else
    match Uri.tryCreate hosts raw with
    | none => .error (.format s!"DSN is not a valid URI: '{String.ofList raw}'.")
    | some uri =>
      if uri.scheme ≠ "http".toList ∧ uri.scheme ≠ "https".toList then
        .error (.format s!"DSN scheme must be http or https; got '{String.ofList uri.scheme}'.")
      else if Runtime.isNullOrWhiteSpace uri.userInfo then
        .error (.format "DSN must include the public key as the user-info part ('\x7bkey\x7d@host').")
      else
        let path := trimChar '/' uri.absolutePath
        if Runtime.isNullOrWhiteSpace path then .error (.format "DSN must include the project id as the path component.")
        else
          match tryParse path with
          | none => .error (.format s!"DSN project id '{String.ofList path}' is not a valid GUID.")
          | some projectId => .ok {
              scheme := uri.scheme
              host := uri.host
              port := if uri.isDefaultPort then (if uri.scheme = "https".toList then 443 else 80) else uri.port
              publicKey := uri.userInfo
              projectId := projectId }

/-! ## The key as a text -/

/-- A digit in the URL alphabet. -/
def urlDigit (d : Nat) : Char :=
  let c := if Base64.digit d = '+' then '-' else Base64.digit d
  if c = '/' then '_' else c

def urlAlphabet : List Char := (List.range 64).map urlDigit

theorem idxOf_urlDigit : ∀ d < 64, urlAlphabet.idxOf (urlDigit d) = d := by decide +kernel

theorem urlDigit_plain : ∀ d < 64, Uri.inAuthority (urlDigit d) = true ∧ urlDigit d ≠ '@' ∧
    Runtime.isWhiteSpace (urlDigit d) = false := by
  decide +kernel

theorem dropWhile_of_false {α : Type} {p : α → Bool} {l : List α} (h : ∀ a ∈ l, p a = false) : l.dropWhile p = l := by
  cases l with
  | nil => rfl
  | cons a l => exact List.dropWhile_cons_of_neg (by simp [h a List.mem_cons_self])

theorem rdropWhile_of_false {α : Type} {p : α → Bool} {l : List α} (h : ∀ a ∈ l, p a = false) : l.rdropWhile p = l := by
  rw [List.rdropWhile, dropWhile_of_false fun a ha => h a (List.mem_reverse.1 ha), List.reverse_reverse]

/-- `TrimEnd('=')` takes the padding away and nothing else. -/
theorem rdropWhile_padding {l : Text} (h : ∀ c ∈ l, c ≠ '=') (n : Nat) :
    (l ++ List.replicate n '=').rdropWhile (· = '=') = l := by
  have hpadding : ∀ c ∈ List.replicate n '=', decide (c = '=') = true := fun c hc => decide_eq_true (List.eq_of_mem_replicate hc)
  have hlast : ∀ c ∈ l, decide (c = '=') = false := fun c hc => decide_eq_false (h c hc)
  have hkeep := rdropWhile_of_false hlast
  unfold List.rdropWhile at hkeep ⊢
  rw [List.reverse_append, List.reverse_replicate, List.dropWhile_append_of_pos hpadding]
  exact hkeep

theorem base64UrlEncode_eq (bytes : List UInt8) : base64UrlEncode bytes = (Base64.sextets bytes).map urlDigit := by
  have hdigits : ∀ c ∈ (Base64.sextets bytes).map Base64.digit, c ≠ '=' := by
    intro c hc
    obtain ⟨d, hd, rfl⟩ := List.mem_map.1 hc
    exact Base64.digit_ne_padding d (Base64.lt_of_mem_sextets hd)
  unfold base64UrlEncode Base64.toBase64String
  rw [rdropWhile_padding hdigits, replaceChar, replaceChar, List.map_map, List.map_map]
  rfl

/-- Different bytes give different keys. -/
theorem base64UrlEncode_injective {bytes bytes' : List UInt8} (h : base64UrlEncode bytes = base64UrlEncode bytes') :
    bytes = bytes' := by
  have hread : ∀ bytes, (base64UrlEncode bytes).map (urlAlphabet.idxOf ·) = Base64.sextets bytes := by
    intro bytes
    rw [base64UrlEncode_eq, List.map_map]
    refine (List.map_congr_left fun d hd => ?_).trans (List.map_id _)
    exact idxOf_urlDigit d (Base64.lt_of_mem_sextets hd)
  rw [← Base64.bytes_sextets bytes, ← hread, h, hread, Base64.bytes_sextets]

theorem key_plain (bytes : List UInt8) : ∀ c ∈ base64UrlEncode bytes,
    Uri.inAuthority c = true ∧ c ≠ '@' ∧ Runtime.isWhiteSpace c = false := by
  intro c hc
  rw [base64UrlEncode_eq] at hc
  obtain ⟨d, hd, rfl⟩ := List.mem_map.1 hc
  exact urlDigit_plain d (Base64.lt_of_mem_sextets hd)

theorem newPublicKey_given (bytes : Vector UInt8 32) : Runtime.isNullOrWhiteSpace (newPublicKey bytes) = false := by
  have hne : newPublicKey bytes ≠ [] := by
    intro hnil
    have hempty : bytes.toList = [] := @base64UrlEncode_injective bytes.toList [] hnil
    have hlen := bytes.length_toList
    rw [hempty] at hlen
    cases hlen
  obtain ⟨c, rest, hcons⟩ := List.exists_cons_of_ne_nil hne
  refine List.all_eq_false.2 ⟨c, hcons ▸ List.mem_cons_self, ?_⟩
  rw [(key_plain bytes.toList c (by rw [← newPublicKey, hcons]; exact List.mem_cons_self)).2.2]
  exact Bool.false_ne_true

/-! ## The project id as a path -/

theorem digitChar_plain : ∀ d < 16, Nat.digitChar d ≠ '/' ∧ Nat.digitChar d ≠ '?' ∧ Nat.digitChar d ≠ '#' ∧
    Runtime.isWhiteSpace (Nat.digitChar d) = false := by
  decide +kernel

theorem guidText_plain (g : Guid) : ∀ c ∈ (guidText g).toList, c ≠ '/' ∧ c ≠ '?' ∧ c ≠ '#' ∧ Runtime.isWhiteSpace c = false := by
  intro c hc
  by_cases hhyphen : c = '-'
  · subst hhyphen
    decide
  · have hmem : c ∈ guidDigits g := by
      rw [← filter_guidText]
      exact List.mem_filter.2 ⟨hc, decide_eq_true hhyphen⟩
    obtain ⟨d, hd, rfl⟩ := List.mem_map.1 hmem
    exact digitChar_plain d (lt_of_mem_lastDigits (by decide) hd)

theorem trimChar_path {t : Text} (h : ∀ c ∈ t, c ≠ '/') : trimChar '/' ('/' :: t) = t := by
  have hfalse : ∀ c ∈ t, decide (c = '/') = false := fun c hc => decide_eq_false (h c hc)
  unfold trimChar
  rw [List.dropWhile_cons_of_pos (by decide), dropWhile_of_false hfalse, rdropWhile_of_false hfalse]

theorem guidText_given (g : Guid) : Runtime.isNullOrWhiteSpace (guidText g).toList = false := by
  have hhyphen : '-' ∈ (guidText g).toList := by
    rw [guidText_toList]
    exact List.mem_append_right _ List.mem_cons_self
  refine List.all_eq_false.2 ⟨'-', hhyphen, ?_⟩
  decide

/-! ## From the dashboard to the runtime -/

theorem letter_not_space {c : Char} (h : c.toLower.isAlpha = true) : Runtime.isWhiteSpace c = false := by
  have halpha : c.isAlpha = true := by
    by_cases hupper : c.isUpper = true
    · simp [Char.isAlpha, hupper]
    · rwa [Char.toLower_eq_of_not_isUpper hupper] at h
  have hrange : (65 ≤ c.toNat ∧ c.toNat ≤ 90) ∨ (97 ≤ c.toNat ∧ c.toNat ≤ 122) := by
    simpa [Char.isAlpha, Char.isUpper, Char.isLower, UInt32.le_iff_toNat_le] using halpha
  simp only [Runtime.isWhiteSpace, List.contains_eq_mem, List.mem_cons, List.not_mem_nil, or_false, Bool.or_eq_false_iff,
    Bool.and_eq_false_iff, decide_eq_false_iff_not]
  omega

theorem defaultPort_ne {scheme : Text} (h : scheme = "http".toList ∨ scheme = "https".toList) : Uri.defaultPort scheme ≠ -1 := by
  rcases h with rfl | rfl <;> decide

section RoundTrip
variable {hosts : HostRules} {publicBaseUrl : Text} {uri : Uri}

/-- What `BuildDsn` writes, as a URI. -/
def dsnUri (uri : Uri) (publicKey : Text) (projectId : Guid) : Uri :=
  { uri with userInfo := publicKey, absolutePath := '/' :: (guidText projectId).toList }

theorem buildDsn_eq (huri : Uri.tryCreate hosts publicBaseUrl = some uri)
    (hscheme : uri.scheme = "http".toList ∨ uri.scheme = "https".toList) (publicKey : Text) (projectId : Guid) :
    buildDsn hosts publicBaseUrl publicKey projectId = (dsnUri uri publicKey projectId).text := by
  obtain ⟨⟨c, hc, hletter⟩, -⟩ := Uri.tryCreate_some huri (defaultPort_ne hscheme)
  have hgiven : Runtime.isNullOrWhiteSpace publicBaseUrl = false :=
    List.all_eq_false.2 ⟨c, hc, by rw [letter_not_space hletter]; exact Bool.false_ne_true⟩
  unfold buildDsn
  have hsuffix : (dsnUri uri publicKey projectId).portSuffix = if uri.isDefaultPort then [] else ':' :: Uri.portText uri.port := rfl
  rw [hgiven, huri, Uri.text, hsuffix]
  simp [dsnUri]

theorem dsnUri_proper (huri : Uri.tryCreate hosts publicBaseUrl = some uri)
    (hscheme : uri.scheme = "http".toList ∨ uri.scheme = "https".toList) (bytes : List UInt8) (projectId : Guid) :
    Uri.Proper hosts (dsnUri uri (base64UrlEncode bytes) projectId) := by
  obtain ⟨-, hvalid, hlower, hhost, hne, hport⟩ := Uri.tryCreate_some huri (defaultPort_ne hscheme)
  refine { scheme := hvalid, lower := hlower, userInfo := ?_, host := hhost, host_ne := hne, port := hport, path := rfl,
           path_plain := ?_ }
  · intro c hc
    exact ⟨(key_plain bytes c hc).1, (key_plain bytes c hc).2.1⟩
  · intro c hc
    rcases List.mem_cons.1 hc with rfl | hc
    · decide
    · exact ⟨(guidText_plain projectId c hc).2.1, (guidText_plain projectId c hc).2.2.1⟩

/-- The port `Dsn.Parse` takes is the URI's. -/
theorem parsed_port (hscheme : uri.scheme = "http".toList ∨ uri.scheme = "https".toList) :
    (if uri.isDefaultPort then (if uri.scheme = "https".toList then 443 else 80) else uri.port) = uri.port := by
  by_cases hdefault : uri.isDefaultPort = true
  · rw [if_pos hdefault, of_decide_eq_true hdefault]
    rcases hscheme with h | h <;> rw [h] <;> decide
  · rw [if_neg hdefault]

theorem parse_buildDsn {tryParse : Text → Option Guid} (hparse : ∀ g, tryParse (guidText g).toList = some g)
    (huri : Uri.tryCreate hosts publicBaseUrl = some uri)
    (hscheme : uri.scheme = "http".toList ∨ uri.scheme = "https".toList) (bytes : Vector UInt8 32) (projectId : Guid) :
    Dsn.parse hosts tryParse (buildDsn hosts publicBaseUrl (newPublicKey bytes) projectId) =
      .ok ⟨uri.scheme, uri.host, uri.port, newPublicKey bytes, projectId⟩ := by
  have hproper := dsnUri_proper huri hscheme bytes.toList projectId
  have hread := Uri.tryCreate_text hproper
  obtain ⟨⟨c, hc, hletter⟩, -⟩ := Uri.tryCreate_some hread (defaultPort_ne hscheme)
  have hgiven : Runtime.isNullOrWhiteSpace (dsnUri uri (base64UrlEncode bytes.toList) projectId).text = false :=
    List.all_eq_false.2 ⟨c, hc, by rw [letter_not_space hletter]; exact Bool.false_ne_true⟩
  have hkey : Runtime.isNullOrWhiteSpace (dsnUri uri (base64UrlEncode bytes.toList) projectId).userInfo = false :=
    newPublicKey_given bytes
  have hpath : trimChar '/' (dsnUri uri (base64UrlEncode bytes.toList) projectId).absolutePath = (guidText projectId).toList :=
    trimChar_path fun c hc => (guidText_plain projectId c hc).1
  have hknown : ¬ ((dsnUri uri (base64UrlEncode bytes.toList) projectId).scheme ≠ "http".toList ∧
      (dsnUri uri (base64UrlEncode bytes.toList) projectId).scheme ≠ "https".toList) := by
    rcases hscheme with h | h <;> simp [dsnUri, h]
  rw [buildDsn_eq huri hscheme, newPublicKey]
  unfold Dsn.parse
  rw [hgiven, hread]
  simp only [Bool.false_eq_true, if_false, hkey, hpath, guidText_given, hparse]
  rw [if_neg hknown]
  exact congrArg (fun port => Except.ok (Dsn.mk uri.scheme uri.host port (base64UrlEncode bytes.toList) projectId))
    (@parsed_port (dsnUri uri (base64UrlEncode bytes.toList) projectId) hscheme)

/-- For every http or https base URL, every key of 32 bytes and every project:
the runtime reads back what the dashboard wrote, and no other key or project has
the same DSN. -/
theorem dsn_round_trip (hosts : HostRules) (tryParse : Text → Option Guid) (hparse : ∀ g, tryParse (guidText g).toList = some g)
    (publicBaseUrl : Text) (uri : Uri) (huri : Uri.tryCreate hosts publicBaseUrl = some uri)
    (hscheme : uri.scheme = "http".toList ∨ uri.scheme = "https".toList) (bytes : Vector UInt8 32) (projectId : Guid) :
    Dsn.parse hosts tryParse (buildDsn hosts publicBaseUrl (newPublicKey bytes) projectId) =
        .ok ⟨uri.scheme, uri.host, uri.port, newPublicKey bytes, projectId⟩ ∧
      ∀ (bytes' : Vector UInt8 32) (projectId' : Guid), (bytes', projectId') ≠ (bytes, projectId) →
        buildDsn hosts publicBaseUrl (newPublicKey bytes') projectId' ≠ buildDsn hosts publicBaseUrl (newPublicKey bytes) projectId := by
  refine ⟨parse_buildDsn hparse huri hscheme bytes projectId, fun bytes' projectId' hne heq => hne ?_⟩
  have hone := parse_buildDsn hparse huri hscheme bytes projectId
  rw [← heq, parse_buildDsn hparse huri hscheme bytes' projectId'] at hone
  have hfields := Except.ok.inj hone
  simp only [Dsn.mk.injEq, true_and] at hfields
  obtain ⟨hkey, rfl⟩ := hfields
  have hbytes : bytes'.toList = bytes.toList := base64UrlEncode_injective hkey
  rw [Vector.toList_inj.1 hbytes]

end RoundTrip

/-! ## A base URL to compute with -/

def isNameChar (c : Char) : Bool := c.isAlphanum || c = '.' || c = '-'

theorem isNameChar_lower {c : Char} (h : isNameChar c = true) : isNameChar c.toLower = true := by
  unfold isNameChar at h ⊢
  simp only [Bool.or_eq_true, decide_eq_true_eq] at h
  rcases h with (h | rfl) | rfl
  · have hlower : c.toLower.isAlphanum = true := (ascii.letter_lower c).trans h
    rw [hlower]
    rfl
  · rfl
  · rfl

theorem isNameChar_plain {c : Char} (h : isNameChar c = true) :
    c ≠ '/' ∧ c ≠ '?' ∧ c ≠ '#' ∧ c ≠ '@' ∧ c ≠ ':' ∧ c ≠ '[' := by
  refine ⟨?_, ?_, ?_, ?_, ?_, ?_⟩ <;> rintro rfl <;> revert h <;> decide

def normalizeName (host : Text) : Option Text := if host.all isNameChar then some (host.map Char.toLower) else none

theorem normalizeName_chars {h h' : Text} (heq : normalizeName h = some h') : ∀ c ∈ h', isNameChar c = true := by
  obtain ⟨hall, heq⟩ := Option.ite_none_right_eq_some.1 heq
  cases heq
  intro c hc
  obtain ⟨c', hc', rfl⟩ := List.mem_map.1 hc
  exact isNameChar_lower (List.all_eq_true.1 hall c' hc')

/-- DNS names; no other hosts. -/
def dnsNames : HostRules where
  normalize := normalizeName
  normalize_again heq := by
    have hchars := normalizeName_chars heq
    obtain ⟨-, heq⟩ := Option.ite_none_right_eq_some.1 heq
    cases heq
    rw [normalizeName, if_pos (List.all_eq_true.2 hchars), List.map_map]
    exact congrArg some (List.map_congr_left fun c _ => Char.toLower_toLower_eq_toLower c)
  plain heq c hc := by
    obtain ⟨h1, h2, h3, h4, -⟩ := isNameChar_plain (normalizeName_chars heq c hc)
    exact ⟨h1, h2, h3, h4⟩
  literal heq := absurd rfl (isNameChar_plain (normalizeName_chars heq '[' List.mem_cons_self)).2.2.2.2.2
  name heq _ hmem := absurd rfl (isNameChar_plain (normalizeName_chars heq ':' hmem)).2.2.2.2.1

theorem dsn_round_trip_example :
    Dsn.parse dnsNames tryParseHyphenated
        (buildDsn dnsNames "https://Dash.example.com:8091/ui".toList (newPublicKey (Vector.replicate 32 255)) 7) =
      .ok ⟨"https".toList, "dash.example.com".toList, 8091, newPublicKey (Vector.replicate 32 255), 7⟩ :=
  (dsn_round_trip dnsNames tryParseHyphenated tryParse_guidText "https://Dash.example.com:8091/ui".toList
    ⟨"https".toList, [], "dash.example.com".toList, 8091, "/ui".toList⟩ (by decide +kernel) (.inr rfl)
    (Vector.replicate 32 255) 7).1

end DuckRun.Reporting
