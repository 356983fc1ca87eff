import LaManchaland.Lib.Digits
import LaManchaland.Lib.Float64
import LaManchaland.Ui.Stream

/-!
# The model settings of the page

`saveModelSettings` reads eight fields with `parseInt` and `parseFloat`; `loadModel` and `sendChatMessage` put the
settings into their request bodies, where `JSON.stringify` writes NaN and the infinities as `null`. A JavaScript number
is a `Num`, whose finite values are those of doubles.

The operator `||` replaces NaN by the default and `??` does not, and neither replaces an infinity. So every setting on
the wire is a number and every unparsable field falls back to its default exactly when the four fields that go through
`??` parse and no field parses as an infinity: `saved_iff`.
-/

namespace LaManchaland.Ui.ModelSettings

open Digits (decValue hexValue hexDigit)

/-! ## Numbers -/

inductive Num where
  | nan
  | inf (negative : Bool)
  | fin (value : ℚ)
  deriving DecidableEq

/-- The number nearest to a rational. -/
def Num.ofRat (q : ℚ) : Num :=
  match Float64.round q with
  | some v => .fin v
  | none => .inf (q < 0)

def Num.truthy : Num → Bool
  | .nan => false
  | .inf _ => true
  | .fin v => v ≠ 0

/-- The operator `||`. -/
def Num.or (a b : Num) : Num := if a.truthy then a else b

/-- The operator `??`, on a value that is `none` when it is null or undefined. -/
def coalesce (a : Option Num) (b : Num) : Num := a.getD b

/-- The operator `!==`. -/
def Num.strictNe : Num → Num → Bool
  | .nan, _ => true
  | _, .nan => true
  | a, b => a ≠ b

/-- `JSON.stringify` of a number; `none` is `null`. -/
def Num.toJSON : Num → Option ℚ
  | .fin v => some v
  | _ => none

/-- Literals of the source. -/
def lit (q : ℚ) : Num := .ofRat q

/-! ## The parsers -/

/-- An optional sign. -/
def sign : List Char → Bool × List Char
  | '-' :: s => (true, s)
  | '+' :: s => (false, s)
  | s => (false, s)

def negate (negative : Bool) (q : ℚ) : ℚ := if negative then -q else q

/-- `parseInt` without a radix: the longest run of digits after the sign, hexadecimal after `0x`. -/
def parseInt (value : String) : Num :=
  let (negative, s) := sign (value.toList.dropWhile isSpace)
  match s with
  | '0' :: 'x' :: s | '0' :: 'X' :: s =>
    let digits := s.takeWhile fun c => (hexDigit c).isSome
    if digits = [] then .nan else .ofRat (negate negative (hexValue digits))
  | s =>
    let digits := s.takeWhile Char.isDigit
    if digits = [] then .nan else .ofRat (negate negative (decValue digits))

/-- The exponent of a decimal literal, 0 when there is none. -/
def exponent : List Char → ℤ
  | 'e' :: s | 'E' :: s =>
    let (negative, s) := sign s
    let digits := s.takeWhile Char.isDigit
    if negative then -decValue digits else decValue digits
  | _ => 0

/-- The digits after a point, and what follows them. -/
def fraction : List Char → List Char × List Char
  | '.' :: s => (s.takeWhile Char.isDigit, s.dropWhile Char.isDigit)
  | s => ([], s)

/-- `parseFloat`: the longest decimal literal after the white space. -/
def parseFloat (value : String) : Num :=
  let (negative, s) := sign (value.toList.dropWhile isSpace)
  if "Infinity".toList <+: s then .inf negative
  else
    let digits := s.takeWhile Char.isDigit
    let (decimals, rest) := fraction (s.dropWhile Char.isDigit)
    if digits = [] ∧ decimals = [] then .nan
    else .ofRat (negate negative (decValue (digits ++ decimals) * 10 ^ (exponent rest - decimals.length)))

/-! ## The settings -/

/-- The input fields of the settings dialog. -/
structure Fields where
  ctxSize : String
  nGpuLayers : String
  threads : String
  nPredict : String
  temp : String
  topP : String
  topK : String
  repeatPenalty : String

/-- `modelSettings`. -/
structure Settings where
  ctxSize : Num
  nGpuLayers : Num
  threads : Num
  nPredict : Num
  temperature : Num
  topP : Num
  topK : Num
  repeatPenalty : Num
  deriving DecidableEq

/-- The settings that the page starts with. -/
def initialSettings : Settings where
  ctxSize := lit 4096
  nGpuLayers := lit (-1)
  threads := lit 0
  nPredict := lit 512
  temperature := lit 0.7
  topP := lit 0.9
  topK := lit 40
  repeatPenalty := lit 1.1

def saveModelSettings (f : Fields) : Settings where
  ctxSize := (parseInt f.ctxSize).or (lit 4096)
  nGpuLayers := coalesce (some (parseInt f.nGpuLayers)) (lit (-1))
  threads := (parseInt f.threads).or (lit 0)
  nPredict := (parseInt f.nPredict).or (lit 512)
  temperature := coalesce (some (parseFloat f.temp)) (lit 0.7)
  topP := coalesce (some (parseFloat f.topP)) (lit 0.9)
  topK := (parseInt f.topK).or (lit 40)
  repeatPenalty := coalesce (some (parseFloat f.repeatPenalty)) (lit 1.1)

/-- The settings in the body of `loadModel`. -/
def loadBody (s : Settings) : List (String × Option ℚ) :=
  [("ctx_size", s.ctxSize.toJSON), ("n_gpu_layers", s.nGpuLayers.toJSON), ("threads", s.threads.toJSON),
    ("n_predict", s.nPredict.toJSON)]

/-- A field that `sendChatMessage` adds when the setting differs from a literal. -/
def unlessDefault (key : String) (setting default : Num) : List (String × Option ℚ) :=
  if setting.strictNe default then [(key, setting.toJSON)] else []

/-- The settings in the body of `sendChatMessage`. -/
def chatBody (s : Settings) : List (String × Option ℚ) :=
  unlessDefault "temperature" s.temperature (lit 0.7) ++ unlessDefault "top_p" s.topP (lit 0.9)
  ++ unlessDefault "top_k" s.topK (lit 40) ++ unlessDefault "repeat_penalty" s.repeatPenalty (lit 1.1)
  ++ unlessDefault "max_tokens" s.nPredict (lit 512)

/-! ## What is on the wire -/

/-- A value that JSON writes as a number. -/
def Num.Finite (a : Num) : Prop := a.toJSON ≠ none

/-- A field of the dialog after a save: what it parses as, the setting, and the default. -/
structure Row where
  parsed : Num
  setting : Num
  default : Num

/-- The fields that go through `||`. -/
def orRows (f : Fields) (s : Settings) : List Row :=
  [⟨parseInt f.ctxSize, s.ctxSize, lit 4096⟩, ⟨parseInt f.threads, s.threads, lit 0⟩,
    ⟨parseInt f.nPredict, s.nPredict, lit 512⟩, ⟨parseInt f.topK, s.topK, lit 40⟩]

/-- The fields that go through `??`. -/
def coalesceRows (f : Fields) (s : Settings) : List Row :=
  [⟨parseInt f.nGpuLayers, s.nGpuLayers, lit (-1)⟩, ⟨parseFloat f.temp, s.temperature, lit 0.7⟩,
    ⟨parseFloat f.topP, s.topP, lit 0.9⟩, ⟨parseFloat f.repeatPenalty, s.repeatPenalty, lit 1.1⟩]

/-- What the fields that go through `||` parse as. -/
def orParsed (f : Fields) : List Num := [parseInt f.ctxSize, parseInt f.threads, parseInt f.nPredict, parseInt f.topK]

/-- What the fields that go through `??` parse as. -/
def coalesceParsed (f : Fields) : List Num :=
  [parseInt f.nGpuLayers, parseFloat f.temp, parseFloat f.topP, parseFloat f.repeatPenalty]

/-- The settings are numbers on the wire, and a field that does not parse has its default. -/
structure Saved (f : Fields) (s : Settings) : Prop where
  numbers : ∀ p ∈ loadBody s ++ chatBody s, p.2 ≠ none
  fallback : ∀ r ∈ orRows f s ++ coalesceRows f s, r.parsed = .nan → r.setting = r.default

theorem Num.ofRat_of_round {q v : ℚ} (h : Float64.round q = some v) : Num.ofRat q = .fin v := by
  delta Num.ofRat
  rw [h]

theorem lit_finite {q : ℚ} (h : |q| ≤ 4096) : (lit q).Finite := by
  have hpow : (4096 : ℚ) = 2 ^ (12 : ℤ) := by norm_num
  obtain ⟨v, hv⟩ := Float64.exists_round (k := 12) (by decide) (by decide) (h.trans hpow.le)
  rw [Num.Finite, lit, Num.ofRat_of_round hv]
  exact Option.some_ne_none v

/-- A setting that goes through `||` is a number unless its field parses as an infinity. -/
theorem or_finite {a d : Num} (hd : d.Finite) : (a.or d).Finite ↔ ∀ negative, a ≠ .inf negative := by
  cases a with
  | nan => simpa [Num.or, Num.truthy] using hd
  | inf negative => simp [Num.or, Num.truthy, Num.Finite, Num.toJSON]
  | fin v =>
    by_cases hv : v = 0
    · simpa [Num.or, Num.truthy, hv] using hd
    · simp [Num.or, Num.truthy, hv, Num.Finite, Num.toJSON]

/-- A number is finite unless it is NaN or an infinity. -/
theorem finite_iff {a : Num} : a.Finite ↔ a ≠ .nan ∧ ∀ negative, a ≠ .inf negative := by
  cases a <;> simp [Num.Finite, Num.toJSON]

/-- A guarded field is a number exactly when its setting is one. -/
theorem unlessDefault_numbers (key : String) (a : Num) {d : Num} (hd : d.Finite) :
    (∀ p ∈ unlessDefault key a d, p.2 ≠ none) ↔ a.Finite := by
  cases d with
  | nan => exact absurd rfl hd
  | inf negative => exact absurd rfl hd
  | fin w => cases a <;> simp [unlessDefault, Num.strictNe, Num.Finite, Num.toJSON]

/-- The bodies hold numbers exactly when all eight settings are. -/
theorem numbers_iff (s : Settings) :
    (∀ p ∈ loadBody s ++ chatBody s, p.2 ≠ none) ↔
      (s.ctxSize.Finite ∧ s.threads.Finite ∧ s.nPredict.Finite ∧ s.topK.Finite) ∧
        s.nGpuLayers.Finite ∧ s.temperature.Finite ∧ s.topP.Finite ∧ s.repeatPenalty.Finite := by
  have hload : (∀ p ∈ loadBody s, p.2 ≠ none) ↔
      s.ctxSize.Finite ∧ s.nGpuLayers.Finite ∧ s.threads.Finite ∧ s.nPredict.Finite := by
    simp [loadBody, Num.Finite]
  have htemp := unlessDefault_numbers "temperature" s.temperature (lit_finite (q := 0.7) (by norm_num))
  have htopP := unlessDefault_numbers "top_p" s.topP (lit_finite (q := 0.9) (by norm_num))
  have htopK := unlessDefault_numbers "top_k" s.topK (lit_finite (q := 40) (by norm_num))
  have hrepeat := unlessDefault_numbers "repeat_penalty" s.repeatPenalty (lit_finite (q := 1.1) (by norm_num))
  have hpredict := unlessDefault_numbers "max_tokens" s.nPredict (lit_finite (q := 512) (by norm_num))
  rw [List.forall_mem_append, hload, chatBody, List.forall_mem_append, List.forall_mem_append, List.forall_mem_append,
    List.forall_mem_append, htemp, htopP, htopK, hrepeat, hpredict]
  constructor
  · rintro ⟨⟨hctx, hgpu, hthreads, hpredict⟩, ⟨⟨⟨htemp, htopP⟩, htopK⟩, hrepeat⟩, -⟩
    exact ⟨⟨hctx, hthreads, hpredict, htopK⟩, hgpu, htemp, htopP, hrepeat⟩
  · rintro ⟨⟨hctx, hthreads, hpredict, htopK⟩, hgpu, htemp, htopP, hrepeat⟩
    exact ⟨⟨hctx, hgpu, hthreads, hpredict⟩, ⟨⟨⟨htemp, htopP⟩, htopK⟩, hrepeat⟩, hpredict⟩

/-- The settings that the page starts with are numbers on the wire. -/
theorem initialSettings_numbers : ∀ p ∈ loadBody initialSettings ++ chatBody initialSettings, p.2 ≠ none := by
  refine (numbers_iff initialSettings).mpr ⟨⟨?_, ?_, ?_, ?_⟩, ?_, ?_, ?_, ?_⟩ <;> exact lit_finite (by norm_num)

section Save

variable (f : Fields)

/-- The settings of the fields that go through `||`. -/
theorem orParsed_numbers : ((saveModelSettings f).ctxSize.Finite ∧ (saveModelSettings f).threads.Finite ∧
      (saveModelSettings f).nPredict.Finite ∧ (saveModelSettings f).topK.Finite) ↔
    ∀ a ∈ orParsed f, ∀ negative, a ≠ .inf negative := by
  rw [orParsed, List.forall_mem_cons, List.forall_mem_cons, List.forall_mem_cons, List.forall_mem_singleton]
  exact and_congr (or_finite (lit_finite (by norm_num))) (and_congr (or_finite (lit_finite (by norm_num)))
    (and_congr (or_finite (lit_finite (by norm_num))) (or_finite (lit_finite (by norm_num)))))

/-- The settings of the fields that go through `??`. -/
theorem coalesceParsed_numbers : ((saveModelSettings f).nGpuLayers.Finite ∧ (saveModelSettings f).temperature.Finite ∧
      (saveModelSettings f).topP.Finite ∧ (saveModelSettings f).repeatPenalty.Finite) ↔
    ∀ a ∈ coalesceParsed f, a ≠ .nan ∧ ∀ negative, a ≠ .inf negative := by
  rw [coalesceParsed, List.forall_mem_cons, List.forall_mem_cons, List.forall_mem_cons, List.forall_mem_singleton]
  exact and_congr finite_iff (and_congr finite_iff (and_congr finite_iff finite_iff))

/-- NaN is not truthy. -/
theorem orRows_fallback : ∀ r ∈ orRows f (saveModelSettings f), r.parsed = .nan → r.setting = r.default := by
  intro r hr hnan
  simp only [orRows, List.mem_cons, List.not_mem_nil, or_false] at hr
  rcases hr with rfl | rfl | rfl | rfl <;>
  · simp only at hnan
    simp [saveModelSettings, hnan, Num.or, Num.truthy]

/-- **When saved settings are numbers on the wire**, for every content of the fields: the fields that go through `??`
parse, and no field parses as an infinity. -/
theorem saved_iff (f : Fields) :
    Saved f (saveModelSettings f) ↔
      (∀ a ∈ coalesceParsed f, a ≠ .nan) ∧ ∀ a ∈ orParsed f ++ coalesceParsed f, ∀ negative, a ≠ .inf negative := by
  constructor
  · intro h
    obtain ⟨hor, hcoalesce⟩ := (numbers_iff _).mp h.numbers
    rw [orParsed_numbers] at hor
    rw [coalesceParsed_numbers] at hcoalesce
    exact ⟨fun a ha => (hcoalesce a ha).1, List.forall_mem_append.mpr ⟨hor, fun a ha => (hcoalesce a ha).2⟩⟩
  · rintro ⟨hnan, hinf⟩
    obtain ⟨hor, hcoalesce⟩ := List.forall_mem_append.mp hinf
    refine ⟨(numbers_iff _).mpr ⟨(orParsed_numbers f).mpr hor, (coalesceParsed_numbers f).mpr fun a ha =>
      ⟨hnan a ha, hcoalesce a ha⟩⟩, List.forall_mem_append.mpr ⟨orRows_fallback f, fun r hr hparsed => ?_⟩⟩
    have hmem : r.parsed ∈ coalesceParsed f := List.mem_map.mpr ⟨r, hr, rfl⟩
    exact absurd hparsed (hnan _ hmem)

end Save

/-- An empty field for the GPU layers puts `null` on the wire. -/
theorem not_saved : ¬∀ f : Fields, Saved f (saveModelSettings f) := by
  intro h
  have hnumbers := (h ⟨"4096", "", "0", "512", "0.7", "0.9", "40", "1.1"⟩).numbers
  exact hnumbers ("n_gpu_layers", none) (by decide) rfl

end LaManchaland.Ui.ModelSettings
