import GooseHttp.Parse.Head
/-!
# What start lines are accepted

A start line that is accepted is the method, the target and a version, with one space
between them, and the method and the target are stored as they were sent.  The version
is read by a number parser, which takes spellings that are never written.
-/

namespace GooseHttp

open Lib

/-! ## Request targets -/

theorem parseRequestTarget_ok {method : Method} {text : Text} {target : RequestTarget}
    (h : parseRequestTarget method text = .ok target) :
    (text = ascii "*" ∧ method = .options ∧ target = .asterisk) ∨
    (text.head? = some 47 ∧ target = .origin text) ∨
    (text.head? ≠ some 47 ∧ text ≠ ascii "*" ∧ method = .connect ∧
      isAuthorityForm text = true ∧ target = .authority text) ∨
    (text.head? ≠ some 47 ∧ text ≠ ascii "*" ∧ method ≠ .connect ∧
      (∃ scheme rest, text = scheme ++ ascii "://" ++ rest ∧ isUriScheme scheme = true) ∧
      target = .absolute text) := by
  unfold parseRequestTarget at h
  split at h
  · rename_i hstar
    split at h
    · rename_i hoptions
      cases h
      exact Or.inl ⟨hstar, hoptions, rfl⟩
    · cases h
  · rename_i hstar
    split at h
    · rename_i hslash
      cases h
      exact Or.inr (Or.inl ⟨hslash, rfl⟩)
    · rename_i hslash
      split at h
      · rename_i hconnect
        split at h
        · rename_i hform
          cases h
          exact Or.inr (Or.inr (Or.inl ⟨hslash, hstar, hconnect, hform, rfl⟩))
        · cases h
      · rename_i hconnect
        split at h
        · rename_i i hfind
          split at h
          · rename_i hscheme
            cases h
            obtain ⟨rest, hrest, -⟩ := findWindow_some hfind
            exact Or.inr (Or.inr (Or.inr ⟨hslash, hstar, hconnect,
              ⟨_, rest, hrest, hscheme⟩, rfl⟩))
          · cases h
        · cases h

theorem asStr_of_parseRequestTarget {method : Method} {text : Text} {target : RequestTarget}
    (h : parseRequestTarget method text = .ok target) : target.asStr = text := by
  rcases parseRequestTarget_ok h with ⟨rfl, -, rfl⟩ | ⟨-, rfl⟩ | ⟨-, -, -, -, rfl⟩ |
    ⟨-, -, -, -, rfl⟩ <;> rfl

theorem ne_nil_of_parseRequestTarget {method : Method} {text : Text} {target : RequestTarget}
    (h : parseRequestTarget method text = .ok target) : text ≠ [] := by
  rintro rfl
  cases method <;> cases h

/-! ## Versions -/

theorem parseU8_singleton {b : UInt8} {d : Nat} (hd : d < 10) (h : parseU8 [b] = some d) :
    b = digitChar d := by
  have hall : ∀ d < 10, ∀ b : UInt8, parseU8 [b] = some d → b = digitChar d := by
    decide +kernel
  exact hall d hd b h

theorem ne_nil_of_parseU8 {s : Text} {d : Nat} (h : parseU8 s = some d) : s ≠ [] := by
  rintro rfl
  cases h

theorem fromStr_ok {text : Text} {version : HttpVersion}
    (h : HttpVersion.fromStr text = .ok version)
    (hversion : version = .http10 ∨ version = .http11) :
    ∃ major minor n, text = ascii "HTTP/" ++ major ++ 46 :: minor ∧ n < 10 ∧
      parseU8 major = some 1 ∧ parseU8 minor = some n ∧
      version.display = ascii "HTTP/1." ++ [digitChar n] := by
  unfold HttpVersion.fromStr at h
  split at h
  · cases h
  · rename_i hname
    split at h
    · cases h
    · rename_i major parts hsplit
      split at h
      · cases h
      · rename_i m hmajor
        split at h
        · cases h
        · rename_i minor parts'
          split at h
          · cases h
          · rename_i n hminor
            split at h
            · cases h
            · rename_i hlast
              have htext : text = ascii "HTTP/" ++ major ++ 46 :: minor := by
                rw [Bool.not_eq_false] at hname
                obtain ⟨rest, hrest⟩ := List.isPrefixOf_iff_prefix.mp hname
                have hdrop : text.drop 5 = rest := by
                  rw [← hrest]
                  rfl
                have hjoin := intercalate_splitAll 46 (text.drop 5)
                rw [hsplit, not_ne_iff.mp hlast] at hjoin
                rw [← hrest, ← hdrop, ← hjoin]
                simp [List.intercalate]
              split at h
              · rename_i hpair
                cases h
                obtain ⟨rfl, rfl⟩ := Prod.mk.inj hpair
                exact ⟨major, minor, 0, htext, by omega, hmajor, hminor, by decide⟩
              · split at h
                · rename_i hpair
                  cases h
                  obtain ⟨rfl, rfl⟩ := Prod.mk.inj hpair
                  exact ⟨major, minor, 1, htext, by omega, hmajor, hminor, by decide⟩
                · cases h
                  rcases hversion with h | h <;> cases h

theorem display_eq_iff {text : Text} {version : HttpVersion}
    (h : HttpVersion.fromStr text = .ok version)
    (hversion : version = .http10 ∨ version = .http11) :
    version.display = text ↔ text.length = 8 := by
  obtain ⟨major, minor, n, rfl, hn, hmajor, hminor, hdisplay⟩ := fromStr_ok h hversion
  have hname : (ascii "HTTP/").length = 5 := rfl
  constructor
  · intro heq
    rw [← heq, hdisplay]
    rfl
  · intro hlen
    have hmajor' := List.length_pos_iff.mpr (ne_nil_of_parseU8 hmajor)
    have hminor' := List.length_pos_iff.mpr (ne_nil_of_parseU8 hminor)
    simp only [List.length_append, List.length_cons, hname] at hlen
    obtain ⟨b, rfl⟩ := List.length_eq_one_iff.mp (show major.length = 1 by omega)
    obtain ⟨c, rfl⟩ := List.length_eq_one_iff.mp (show minor.length = 1 by omega)
    rw [hdisplay, parseU8_singleton (by omega) hmajor, parseU8_singleton hn hminor]
    rfl

theorem length_display_le {text : Text} {version : HttpVersion}
    (h : HttpVersion.fromStr text = .ok version)
    (hversion : version = .http10 ∨ version = .http11) :
    version.display.length ≤ text.length := by
  obtain ⟨major, minor, n, rfl, -, hmajor, hminor, hdisplay⟩ := fromStr_ok h hversion
  have hmajor' := List.length_pos_iff.mpr (ne_nil_of_parseU8 hmajor)
  have hminor' := List.length_pos_iff.mpr (ne_nil_of_parseU8 hminor)
  have hname : (ascii "HTTP/").length = 5 := rfl
  have hname' : (ascii "HTTP/1.").length = 7 := rfl
  rw [hdisplay]
  simp only [List.length_append, List.length_cons, List.length_nil, hname, hname']
  omega

theorem fromStr_display {version : HttpVersion}
    (hversion : version = .http10 ∨ version = .http11) :
    HttpVersion.fromStr version.display = .ok version := by
  rcases hversion with rfl | rfl <;> decide

/-! ## Start lines -/

def startLine (method : Method) (target : RequestTarget) (version : HttpVersion) : Text :=
  method.asStr ++ ascii " " ++ target.asStr ++ ascii " " ++ version.display

theorem startLine_eq (method : Method) (target : RequestTarget) (version : HttpVersion) :
    startLine method target version =
      method.asStr ++ 32 :: (target.asStr ++ 32 :: version.display) := by
  simp only [startLine, List.append_assoc]
  rfl

theorem parseRequestLine_ok {line : Text} {method : Method} {target : RequestTarget}
    {version : HttpVersion} (h : parseRequestLine line = .ok (method, target, version)) :
    ∃ versionStr, line = method.asStr ++ 32 :: (target.asStr ++ 32 :: versionStr) ∧
      Method.fromToken method.asStr = some method ∧
      parseRequestTarget method target.asStr = .ok target ∧
      32 ∉ target.asStr ∧ 32 ∉ versionStr ∧
      HttpVersion.fromStr versionStr = .ok version ∧
      (version = .http10 ∨ version = .http11) := by
  unfold parseRequestLine at h
  split at h
  · cases h
  · rename_i methodStr rest hfirst
    split at h
    · cases h
    · split at h
      · cases h
      · rename_i targetStr versionStr hsecond
        split at h
        · cases h
        · split at h
          · cases h
          · rename_i hblank
            split at h
            · cases h
            · rename_i m hmethod
              split at h
              · cases h
              · rename_i t htarget
                split at h
                · cases h
                · rename_i v hversion
                  split at h
                  · rename_i hknown
                    cases h
                    obtain ⟨hline, -⟩ := splitOnce_some hfirst
                    obtain ⟨hrest, hspace⟩ := splitOnce_some hsecond
                    have htoken := (Method.fromToken_ok hmethod).1
                    have htext := asStr_of_parseRequestTarget htarget
                    rw [Bool.not_eq_true, Bool.or_eq_false_iff] at hblank
                    refine ⟨versionStr, ?_, ?_, ?_, ?_, ?_, hversion, ?_⟩
                    · rw [htoken, htext, hline, hrest]
                    · rw [htoken, hmethod]
                    · rw [htext, htarget]
                    · rwa [htext]
                    · simpa using hblank.2
                    · simpa using hknown
                  · cases h

theorem parseRequestLine_startLine {method : Method} {target : RequestTarget}
    {version : HttpVersion} (hmethod : Method.fromToken method.asStr = some method)
    (htarget : parseRequestTarget method target.asStr = .ok target)
    (hspace : 32 ∉ target.asStr) (hversion : version = .http10 ∨ version = .http11) :
    parseRequestLine (startLine method target version) = .ok (method, target, version) := by
  have htoken := (Method.fromToken_ok hmethod).2
  have hspace' : 32 ∉ method.asStr := not_mem_of_isToken htoken (by decide)
  have hblank : (version.display = [] || version.display.contains 32) = false := by
    rcases hversion with rfl | rfl <;> decide
  rw [parseRequestLine, startLine_eq, splitOnce_append _ hspace']
  simp only [(isToken_iff.mp htoken).1, if_false]
  rw [splitOnce_append _ hspace]
  simp only [ne_nil_of_parseRequestTarget htarget, if_false, hblank, Bool.false_eq_true, hmethod,
    htarget, fromStr_display hversion]
  rcases hversion with rfl | rfl <;> rfl

/-- What stands behind the last space of a line. -/
def versionToken (line : Text) : Text := line.rtakeWhile fun b => b ≠ 32

theorem versionToken_append {front token : Text} (h : 32 ∉ token) :
    versionToken (front ++ 32 :: token) = token := by
  have hall : ∀ b ∈ token.reverse, (fun b : UInt8 => decide (b ≠ 32)) b = true := by
    intro b hb
    rw [decide_eq_true_eq]
    rintro rfl
    exact h (List.mem_reverse.mp hb)
  rw [versionToken, List.rtakeWhile, List.reverse_append, List.reverse_cons, List.append_assoc,
    List.takeWhile_append_of_pos hall]
  simp

/-- An accepted start line is what its parts are written as, if and only if both numbers of
its version have one digit; and parts that are accepted one by one are accepted together,
as they are. -/
theorem parseRequestLine_exact (line token text : Text) (method : Method)
    (target : RequestTarget) (version : HttpVersion) :
    (parseRequestLine line = .ok (method, target, version) →
      (version = .http10 ∨ version = .http11) ∧
        (startLine method target version = line ↔ (versionToken line).length = 8)) ∧
    (Method.fromToken token = some method → parseRequestTarget method text = .ok target →
      32 ∉ text → (version = .http10 ∨ version = .http11) →
        parseRequestLine (startLine method target version) = .ok (method, target, version)) := by
  constructor
  · intro h
    obtain ⟨versionStr, rfl, -, -, -, hspace, hfrom, hversion⟩ := parseRequestLine_ok h
    have htoken : versionToken (method.asStr ++ 32 :: (target.asStr ++ 32 :: versionStr)) =
        versionStr := by
      rw [← List.cons_append, ← List.append_assoc]
      exact versionToken_append hspace
    refine ⟨hversion, ?_⟩
    rw [htoken, ← display_eq_iff hfrom hversion, startLine_eq]
    simp
  · intro hmethod htarget hspace hversion
    have hasStr := (Method.fromToken_ok hmethod).1
    have htext := asStr_of_parseRequestTarget htarget
    exact parseRequestLine_startLine (by rw [hasStr, hmethod]) (by rw [htext, htarget])
      (by rwa [htext]) hversion

/-- A start line with a leading zero in its version is accepted as HTTP/1.1. -/
theorem parseRequestLine_leadingZero :
    parseRequestLine (ascii "GET / HTTP/01.1") = .ok (.get, .origin (ascii "/"), .http11) ∧
      startLine .get (.origin (ascii "/")) .http11 ≠ ascii "GET / HTTP/01.1" := by
  decide +kernel

/-- An extension method and an absolute target, there and back. -/
theorem parseRequestLine_exact_absolute :
    startLine (.extension (ascii "PURGE")) (.absolute (ascii "http://a/")) .http10 =
        ascii "PURGE http://a/ HTTP/1.0" ∧
      parseRequestLine (startLine (.extension (ascii "PURGE")) (.absolute (ascii "http://a/"))
        .http10) = .ok (.extension (ascii "PURGE"), .absolute (ascii "http://a/"), .http10) :=
  ⟨by decide +kernel, (parseRequestLine_exact [] (ascii "PURGE") (ascii "http://a/") _ _ _).2
    (by decide +kernel) (by decide +kernel) (by decide +kernel) (Or.inl rfl)⟩

/-! ## Forms of targets -/

/-- A host and a port of at least one digit; a host in brackets is not empty inside. -/
def IsHostPort (text : Text) : Prop :=
  ∃ host port, text = host ++ 58 :: port ∧ host ≠ [] ∧ port ≠ [] ∧
    (∀ b ∈ port, isDigit b = true) ∧
    (host.head? = some 91 → ∃ inner, host = 91 :: inner ++ [93] ∧ inner ≠ [])

def IsScheme (text : Text) : Prop :=
  ∃ first rest, text = first :: rest ∧ isAlphabetic first = true ∧
    ∀ b ∈ rest, isAlphanumeric b = true ∨ b = 43 ∨ b = 45 ∨ b = 46

/-- The form of a request target is the one its method and its text call for. -/
structure HasForm (method : Method) (text : Text) (target : RequestTarget) : Prop where
  authority_iff : (∃ s, target = .authority s) ↔ method = .connect
  authority : ∀ s, target = .authority s → IsHostPort text
  asterisk_iff : target = .asterisk ↔ text = ascii "*"
  asterisk : target = .asterisk → method = .options
  origin : ∀ s, target = .origin s → text.head? = some 47
  absolute : ∀ s, target = .absolute s →
    ∃ scheme rest, text = scheme ++ ascii "://" ++ rest ∧ IsScheme scheme
  asStr : target.asStr = text

theorem isScheme_of_isUriScheme {text : Text} (h : isUriScheme text = true) : IsScheme text := by
  cases text with
  | nil => cases h
  | cons first rest =>
      rw [isUriScheme, Bool.and_eq_true, List.all_eq_true] at h
      refine ⟨first, rest, rfl, h.1, fun b hb => ?_⟩
      have hclass := h.2 b hb
      simp only [Bool.or_eq_true, decide_eq_true_eq, or_assoc] at hclass
      tauto

theorem isPort_iff {text : Text} :
    isPort text = true ↔
      ∃ port, text = 58 :: port ∧ port ≠ [] ∧ ∀ b ∈ port, isDigit b = true := by
  cases text with
  | nil => simp [isPort]
  | cons colon port => simp [isPort, and_assoc]

theorem not_isHostPort_emptyBrackets {port : Text} (hport : ∀ b ∈ port, isDigit b = true) :
    ¬ IsHostPort (ascii "[]" ++ 58 :: port) := by
  rintro ⟨host, port', heq, hne, -, -, hbracket⟩
  cases host with
  | nil => exact hne rfl
  | cons b host =>
      obtain ⟨rfl, htail⟩ : b = 91 ∧ 93 :: 58 :: port = host ++ 58 :: port' :=
        ⟨(List.cons.inj heq).1.symm, (List.cons.inj heq).2⟩
      obtain ⟨inner, hhost, hinner⟩ := hbracket rfl
      rw [List.cons_append] at hhost
      rw [(List.cons.inj hhost).2] at htail
      -- a bracket in front of the closing one would be among the digits of the port
      match inner, hinner with
      | [c], _ => simp at htail
      | c :: d :: inner, _ =>
          have hport' : port = inner ++ [93] ++ 58 :: port' := by
            simpa using (List.cons.inj (List.cons.inj htail).2).2
          have hdigit := hport 93 (by simp [hport'])
          revert hdigit
          decide

/-- What is accepted as an authority is a host and a port, but for empty brackets. -/
theorem isHostPort_iff {text : Text} (h : isAuthorityForm text = true) :
    IsHostPort text ↔ ¬ ascii "[]" <+: text := by
  unfold isAuthorityForm at h
  split at h
  · cases h
  · split at h
    · rename_i hbracket
      split at h
      · rename_i front rest hsplit
        obtain ⟨port, rfl, hport, hdigits⟩ := isPort_iff.mp h
        obtain ⟨rfl, hclose⟩ := splitOnce_some hsplit
        cases front with
        | nil => simp at hbracket
        | cons b inner =>
            obtain rfl : b = 91 := by simpa using hbracket
            cases inner with
            | nil =>
                constructor
                · exact fun hhost => absurd hhost (not_isHostPort_emptyBrackets hdigits)
                · exact fun hpre => absurd ⟨58 :: port, rfl⟩ hpre
            | cons c inner =>
                constructor
                · rintro - hpre
                  have htail := (List.cons_prefix_cons.mp hpre).2
                  have hc : 93 = c := (List.cons_prefix_cons.mp htail).1
                  exact hclose (by rw [← hc]; simp)
                · rintro -
                  exact ⟨91 :: c :: inner ++ [93], port, by simp, by simp, hport, hdigits,
                    fun _ => ⟨c :: inner, rfl, by simp⟩⟩
      · cases h
    · rename_i hbracket
      split at h
      · rename_i host port hsplit
        obtain ⟨rfl, -⟩ := splitOnce_some hsplit
        simp only [Bool.and_eq_true, decide_eq_true_eq, List.all_eq_true, ne_eq] at h
        obtain ⟨⟨hhost, hport⟩, hdigits⟩ := h
        have hhead : host.head? ≠ some 91 := by
          cases host with
          | nil => exact absurd rfl hhost
          | cons b host => simpa using hbracket
        constructor
        · rintro - hpre
          cases host with
          | nil => exact hhost rfl
          | cons b host =>
              have hb := (List.cons_prefix_cons.mp hpre).1
              exact hhead (by rw [← hb]; rfl)
        · rintro -
          exact ⟨host, port, rfl, hhost, hport, hdigits, fun hopen => absurd hopen hhead⟩
      · cases h

/-- An accepted target has the form its method and its text call for, unless it is the
target of CONNECT and starts with a slash or with empty brackets. -/
theorem parseRequestTarget_form_iff {method : Method} {text : Text} {target : RequestTarget}
    (h : parseRequestTarget method text = .ok target) :
    HasForm method text target ↔
      ¬ (method = .connect ∧ (text.head? = some 47 ∨ ascii "[]" <+: text)) := by
  have hasStr := asStr_of_parseRequestTarget h
  rcases parseRequestTarget_ok h with ⟨rfl, rfl, rfl⟩ | ⟨hslash, rfl⟩ |
    ⟨hslash, hstar, rfl, hform, rfl⟩ | ⟨hslash, hstar, hconnect, ⟨scheme, rest, heq, hscheme⟩, rfl⟩
  · refine iff_of_true ⟨?_, ?_, ?_, ?_, ?_, ?_, hasStr⟩ ?_ <;> simp
  · have hstar : text ≠ ascii "*" := by
      rintro rfl
      cases hslash
    constructor
    · rintro hform ⟨hconnect, -⟩
      obtain ⟨s, hs⟩ := hform.authority_iff.mpr hconnect
      cases hs
    · intro hnot
      have hconnect : method ≠ .connect := fun hconnect => hnot ⟨hconnect, Or.inl hslash⟩
      exact ⟨by simp [hconnect], by simp, by simp [hstar], by simp, fun _ _ => hslash, by simp,
        hasStr⟩
  · constructor
    · rintro hhas ⟨-, hslash' | hempty⟩
      · exact hslash hslash'
      · exact (isHostPort_iff hform).mp (hhas.authority _ rfl) hempty
    · intro hnot
      have hhost := (isHostPort_iff hform).mpr fun hempty => hnot ⟨rfl, Or.inr hempty⟩
      exact ⟨by simp, fun _ _ => hhost, by simp [hstar], by simp, by simp, by simp, hasStr⟩
  · refine iff_of_true ?_ fun hnot => hconnect hnot.1
    exact ⟨by simp [hconnect], by simp, by simp [hstar], by simp, by simp,
      fun _ _ => ⟨scheme, rest, heq, isScheme_of_isUriScheme hscheme⟩, hasStr⟩

/-- CONNECT is given an origin form, and an authority without a host. -/
theorem parseRequestTarget_connectForms :
    (∃ target, parseRequestTarget .connect (ascii "/x") = .ok target ∧
      ¬ HasForm .connect (ascii "/x") target) ∧
    ∃ target, parseRequestTarget .connect (ascii "[]:80") = .ok target ∧
      ¬ HasForm .connect (ascii "[]:80") target := by
  refine ⟨⟨.origin (ascii "/x"), by decide, fun hform => ?_⟩,
    ⟨.authority (ascii "[]:80"), by decide, fun hform => ?_⟩⟩
  · obtain ⟨s, hs⟩ := hform.authority_iff.mpr rfl
    cases hs
  · have hdigits : ∀ b ∈ ascii "80", isDigit b = true := by decide +kernel
    have htext : ascii "[]:80" = ascii "[]" ++ 58 :: ascii "80" := by decide +kernel
    have hhost := hform.authority _ rfl
    rw [htext] at hhost
    exact not_isHostPort_emptyBrackets hdigits hhost

theorem parseRequestTarget_form_iff_literal :
    HasForm .connect (ascii "[::1]:443") (.authority (ascii "[::1]:443")) := by
  have h : parseRequestTarget .connect (ascii "[::1]:443") =
      .ok (.authority (ascii "[::1]:443")) := by decide +kernel
  exact (parseRequestTarget_form_iff h).mpr (by decide +kernel)

end GooseHttp
