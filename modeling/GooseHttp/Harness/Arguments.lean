import GooseHttp.Text
/-!
# The command line of the compliance harness

`parseArgs` takes flags off the front, each with its value, until there are none left or one
of them is at fault.  `parseArgs_eq_iff` says what it makes of a command line without its
control flow: settings in front, of which the last of a kind counts, and behind them nothing
or the fault that decides the outcome.
-/

namespace GooseHttp

open Lib

namespace Harness

/-! ## The parser -/

def DEFAULT_HOST : Text := ascii "127.0.0.1"
def DEFAULT_PORT : Nat := 18080

structure HarnessConfig where
  host : Text
  port : Nat
  /-- In seconds. -/
  shutdownAfter : Option Nat
  deriving DecidableEq, Repr

inductive ConfigError
  | missingValue (flag : Text)
  | invalidPort (value : Text)
  | invalidDuration (value : Text)
  | invalidAddr (value : Text)
  deriving DecidableEq, Repr

/-- How `parse_args` ends; it leaves the process where it has printed the usage. -/
inductive ArgsOutcome
  | config (config : HarnessConfig)
  | failed (e : ConfigError)
  | exits (code : Nat)
  deriving DecidableEq, Repr

/-- `str::parse::<u16>`. -/
def parseU16 (s : Text) : Option Nat := fromStrRadix 10 (2 ^ 16) s

/-- `rsplit_once(':')` -/
def rsplitColon (s : Text) : Option (Text × Text) :=
  (splitOnce 58 s.reverse).map fun p => (p.2.reverse, p.1.reverse)

def parseFlags (config : HarnessConfig) : List Text → ArgsOutcome
  | [] => .config config
  | flag :: args =>
      if flag = ascii "--host" then
        match args with
        | [] => .failed (.missingValue (ascii "--host"))
        | value :: args => parseFlags { config with host := value } args
      else if flag = ascii "--port" then
        match args with
        | [] => .failed (.missingValue (ascii "--port"))
        | value :: args =>
            match parseU16 value with
            | none => .failed (.invalidPort value)
            | some port => parseFlags { config with port := port } args
      else if flag = ascii "--addr" then
        match args with
        | [] => .failed (.missingValue (ascii "--addr"))
        | value :: args =>
            match rsplitColon value with
            | none => .failed (.invalidAddr value)
            | some (h, p) =>
                match parseU16 p with
                | none => .failed (.invalidAddr value)
                | some port => parseFlags { config with host := h, port := port } args
      else if flag = ascii "--shutdown-after" then
        match args with
        | [] => .failed (.missingValue (ascii "--shutdown-after"))
        | value :: args =>
            match parseU64 value with
            | none => .failed (.invalidDuration value)
            | some seconds => parseFlags { config with shutdownAfter := some seconds } args
      else if flag = ascii "--help" ∨ flag = ascii "-h" then .exits 0
      else .exits 2

/-- The first argument is the name of the executable. -/
def parseArgs (args : List Text) : ArgsOutcome :=
  parseFlags ⟨DEFAULT_HOST, DEFAULT_PORT, none⟩ args.tail

/-- `format!("{}:{}", config.host, config.port)` -/
def HarnessConfig.addr (config : HarnessConfig) : Text :=
  config.host ++ 58 :: toDecimal config.port

/-! ## Command lines -/

inductive Setting
  | host (value : Text)
  | port (value : Text) (n : Nat) (h : parseU16 value = some n)
  | addr (host value : Text) (n : Nat) (h : parseU16 value = some n)
  | shutdownAfter (value : Text) (n : Nat) (h : parseU64 value = some n)

namespace Setting

def words : Setting → List Text
  | host value => [ascii "--host", value]
  | port value _ _ => [ascii "--port", value]
  | addr name value _ _ => [ascii "--addr", name ++ 58 :: value]
  | shutdownAfter value _ _ => [ascii "--shutdown-after", value]

def apply (config : HarnessConfig) : Setting → HarnessConfig
  | host value => { config with host := value }
  | port _ n _ => { config with port := n }
  | addr name _ n _ => { config with host := name, port := n }
  | shutdownAfter _ n _ => { config with shutdownAfter := some n }

end Setting

def valueFlags : List Text :=
  [ascii "--host", ascii "--port", ascii "--addr", ascii "--shutdown-after"]

/-- The arguments begin with a fault, which leads to this outcome. -/
inductive Faulty : List Text → ArgsOutcome → Prop
  | missing (flag : Text) (h : flag ∈ valueFlags) : Faulty [flag] (.failed (.missingValue flag))
  | port (value : Text) (args : List Text) (h : parseU16 value = none) :
      Faulty (ascii "--port" :: value :: args) (.failed (.invalidPort value))
  | addr (value : Text) (args : List Text)
      (h : ∀ host port, value = host ++ 58 :: port → parseU16 port = none) :
      Faulty (ascii "--addr" :: value :: args) (.failed (.invalidAddr value))
  | duration (value : Text) (args : List Text) (h : parseU64 value = none) :
      Faulty (ascii "--shutdown-after" :: value :: args) (.failed (.invalidDuration value))
  | help (flag : Text) (args : List Text) (h : flag = ascii "--help" ∨ flag = ascii "-h") :
      Faulty (flag :: args) (.exits 0)
  | unrecognised (flag : Text) (args : List Text) (hvalue : flag ∉ valueFlags)
      (hhelp : flag ≠ ascii "--help" ∧ flag ≠ ascii "-h") : Faulty (flag :: args) (.exits 2)

/-! ## Addresses -/

theorem rsplitColon_append {host port : Text} (h : 58 ∉ port) :
    rsplitColon (host ++ 58 :: port) = some (host, port) := by
  have hreverse : (host ++ 58 :: port).reverse = port.reverse ++ 58 :: host.reverse := by simp
  rw [rsplitColon, hreverse, splitOnce_append _ (by simpa using h)]
  simp

theorem rsplitColon_some {s host port : Text} (h : rsplitColon s = some (host, port)) :
    s = host ++ 58 :: port := by
  obtain ⟨⟨a, b⟩, hsplit, hpair⟩ := Option.map_eq_some_iff.mp h
  obtain ⟨rfl, rfl⟩ := Prod.mk.inj hpair
  rw [← List.reverse_reverse s, (splitOnce_some hsplit).1]
  simp

theorem colon_not_mem_of_parseU16 {s : Text} {n : Nat} (h : parseU16 s = some n) : 58 ∉ s := by
  have hcolon : toDigit 10 58 = none := rfl
  have hdigits : 58 ∉ if s.head? = some 43 then s.tail else s := by
    cases hread : toDigits 10 (if s.head? = some 43 then s.tail else s) with
    | none => simp only [parseU16, fromStrRadix, hread, ite_self, reduceCtorEq] at h
    | some ds => exact not_mem_of_toDigits hread hcolon
  cases s with
  | nil => exact List.not_mem_nil
  | cons b s =>
      by_cases hsign : b = 43
      · rw [hsign] at hdigits ⊢
        simpa using hdigits
      · have hhead : (b :: s).head? ≠ some 43 := fun h => hsign (Option.some.inj h)
        rwa [if_neg hhead] at hdigits

/-! ## Settings and faults -/

theorem parseFlags_words (config : HarnessConfig) (setting : Setting) (args : List Text) :
    parseFlags config (setting.words ++ args) = parseFlags (setting.apply config) args := by
  cases setting with
  | host value => rfl
  | port value n h =>
      rw [Setting.words, List.cons_append, List.singleton_append, parseFlags, if_neg (by decide),
        if_pos rfl]
      rw [h]
      rfl
  | addr name value n h =>
      rw [Setting.words, List.cons_append, List.singleton_append, parseFlags, if_neg (by decide),
        if_neg (by decide), if_pos rfl]
      rw [rsplitColon_append (colon_not_mem_of_parseU16 h)]
      dsimp only
      rw [h]
      rfl
  | shutdownAfter value n h =>
      rw [Setting.words, List.cons_append, List.singleton_append, parseFlags, if_neg (by decide),
        if_neg (by decide), if_neg (by decide), if_pos rfl]
      rw [h]
      rfl

theorem parseFlags_settings (config : HarnessConfig) (settings : List Setting)
    (args : List Text) : parseFlags config (settings.flatMap Setting.words ++ args) =
      parseFlags (settings.foldl Setting.apply config) args := by
  induction settings generalizing config with
  | nil => rfl
  | cons setting settings ih =>
      rw [List.flatMap_cons, List.append_assoc, parseFlags_words, ih, List.foldl_cons]

/-- A fault decides the outcome, whatever has been set. -/
theorem Faulty.parseFlags_eq {args : List Text} {o : ArgsOutcome} (h : Faulty args o)
    (config : HarnessConfig) : parseFlags config args = o := by
  cases h with
  | missing flag hflag =>
      simp only [valueFlags, List.mem_cons, List.not_mem_nil, or_false] at hflag
      rcases hflag with rfl | rfl | rfl | rfl <;> rfl
  | port value args hvalue =>
      rw [parseFlags, if_neg (by decide), if_pos rfl]
      rw [hvalue]
  | addr value args hvalue =>
      rw [parseFlags, if_neg (by decide), if_neg (by decide), if_pos rfl]
      cases hsplit : rsplitColon value with
      | none => rfl
      | some p =>
          dsimp only
          rw [hvalue p.1 p.2 (rsplitColon_some hsplit)]
  | duration value args hvalue =>
      rw [parseFlags, if_neg (by decide), if_neg (by decide), if_neg (by decide), if_pos rfl]
      rw [hvalue]
  | help flag args hflag =>
      unfold parseFlags
      rcases hflag with rfl | rfl <;> rfl
  | unrecognised flag args hvalue hhelp =>
      simp only [valueFlags, List.mem_cons, List.not_mem_nil, or_false, not_or] at hvalue
      obtain ⟨hhost, hport, haddr, hduration⟩ := hvalue
      unfold parseFlags
      rw [if_neg hhost, if_neg hport, if_neg haddr, if_neg hduration,
        if_neg (by simpa using hhelp)]

theorem args_cases (args : List Text) :
    args = [] ∨ (∃ o, Faulty args o) ∨ ∃ (setting : Setting) (rest : List Text),
      args = setting.words ++ rest := by
  match args with
  | [] => exact Or.inl rfl
  | [flag] =>
      refine Or.inr (Or.inl ?_)
      by_cases hvalue : flag ∈ valueFlags
      · exact ⟨_, .missing flag hvalue⟩
      · by_cases hhelp : flag = ascii "--help" ∨ flag = ascii "-h"
        · exact ⟨_, .help flag [] hhelp⟩
        · exact ⟨_, .unrecognised flag [] hvalue (not_or.mp hhelp)⟩
  | flag :: value :: args =>
      refine Or.inr ?_
      by_cases hvalue : flag ∈ valueFlags
      · simp only [valueFlags, List.mem_cons, List.not_mem_nil, or_false] at hvalue
        rcases hvalue with rfl | rfl | rfl | rfl
        · exact Or.inr ⟨.host value, args, rfl⟩
        · cases h : parseU16 value with
          | none => exact Or.inl ⟨_, .port value args h⟩
          | some n => exact Or.inr ⟨.port value n h, args, rfl⟩
        · by_cases h : ∃ host port n, value = host ++ 58 :: port ∧ parseU16 port = some n
          · obtain ⟨host, port, n, rfl, hport⟩ := h
            exact Or.inr ⟨.addr host port n hport, args, rfl⟩
          · refine Or.inl ⟨_, .addr value args fun host port hsplit => ?_⟩
            rw [Option.eq_none_iff_forall_ne_some]
            exact fun n hn => h ⟨host, port, n, hsplit, hn⟩
        · cases h : parseU64 value with
          | none => exact Or.inl ⟨_, .duration value args h⟩
          | some n => exact Or.inr ⟨.shutdownAfter value n h, args, rfl⟩
      · by_cases hhelp : flag = ascii "--help" ∨ flag = ascii "-h"
        · exact Or.inl ⟨_, .help flag _ hhelp⟩
        · exact Or.inl ⟨_, .unrecognised flag _ hvalue (not_or.mp hhelp)⟩

theorem exists_settings (args : List Text) :
    ∃ (settings : List Setting) (rest : List Text),
      args = settings.flatMap Setting.words ++ rest ∧ (rest = [] ∨ ∃ o, Faulty rest o) := by
  induction hn : args.length using Nat.strongRecOn generalizing args with
  | ind n ih =>
      rcases args_cases args with rfl | hfaulty | ⟨setting, rest, rfl⟩
      · exact ⟨[], [], rfl, Or.inl rfl⟩
      · exact ⟨[], args, rfl, Or.inr hfaulty⟩
      · have hwords : 0 < setting.words.length := by cases setting <;> exact Nat.zero_lt_two
        rw [List.length_append] at hn
        obtain ⟨settings, rest', rfl, hrest⟩ := ih rest.length (by omega) rest rfl
        exact ⟨setting :: settings, rest', by rw [List.flatMap_cons, List.append_assoc], hrest⟩

def configured (settings : List Setting) : HarnessConfig :=
  settings.foldl Setting.apply ⟨DEFAULT_HOST, DEFAULT_PORT, none⟩

/-- A command line is settings, of which each overrides what those in front of it set, and
then ends or has a fault; in that case the first fault alone decides the outcome, and the
error names the flag or the value that is at fault. -/
theorem parseArgs_eq_iff (args : List Text) (o : ArgsOutcome) :
    parseArgs args = o ↔
      ∃ (settings : List Setting) (rest : List Text),
        args.tail = settings.flatMap Setting.words ++ rest ∧
          (rest = [] ∧ o = .config (configured settings) ∨ Faulty rest o) := by
  constructor
  · rintro rfl
    obtain ⟨settings, rest, hargs, hrest⟩ := exists_settings args.tail
    refine ⟨settings, rest, hargs, ?_⟩
    rw [parseArgs, hargs, parseFlags_settings]
    rcases hrest with rfl | ⟨o, hfaulty⟩
    · exact Or.inl ⟨rfl, rfl⟩
    · rw [hfaulty.parseFlags_eq]
      exact Or.inr hfaulty
  · rintro ⟨settings, rest, hargs, hrest⟩
    rw [parseArgs, hargs, parseFlags_settings]
    rcases hrest with ⟨rfl, rfl⟩ | hfaulty
    · rfl
    · exact hfaulty.parseFlags_eq _

/-- The address the harness binds, given back to it, is taken for the same host and port,
whatever colons there are in the host. -/
theorem parseArgs_addr (exe : Text) (config : HarnessConfig) (hport : config.port < 2 ^ 16) :
    parseArgs [exe, ascii "--addr", config.addr] =
      .config ⟨config.host, config.port, none⟩ := by
  have hread : parseU16 (toDecimal config.port) = some config.port :=
    fromStrRadix_formatRadix (by decide) (by decide) hport
  exact parseFlags_words _ (.addr config.host (toDecimal config.port) config.port hread) []

end Harness

end GooseHttp
