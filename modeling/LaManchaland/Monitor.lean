import LaManchaland.Lib.Digits
import LaManchaland.Lib.Split

/-!
# The GPU monitor

`getLinuxGPUMetrics` and `getWindowsGPUMetrics` read the table that nvidia-smi prints, by the same statements
(`gpuRows`): the output is trimmed and split into lines, a line with six fields gives a GPU, and the memory is converted
from MiB to bytes modulo `2 ^ 64`. `parseUint` and `atoi` are the values of `ParseUint` and `Atoi`, whose errors are
ignored: they saturate (`parseUint_digits`). `getMetrics` puts the rows beside what the system says.

A `Report` is the output for a list of records with other lines between them and either line end. Both functions give
back its records, with the memory in bytes: `report_roundTrip`.
-/

namespace LaManchaland.Monitor

open Digits (decValue)
open Split (splitPair trim)

/-! ## Package strings and package strconv -/

/-- `unicode.IsSpace`. -/
def isSpace (c : Char) : Bool :=
  c.toNat ∈ [0x09, 0x0A, 0x0B, 0x0C, 0x0D, 0x20, 0x85, 0xA0, 0x1680, 0x2000, 0x2001, 0x2002, 0x2003, 0x2004, 0x2005,
    0x2006, 0x2007, 0x2008, 0x2009, 0x200A, 0x2028, 0x2029, 0x202F, 0x205F, 0x3000]

def trimSpace (s : List Char) : List Char := trim isSpace s

def maxUint64 : Nat := 2 ^ 64 - 1

/-- The loop of `ParseUint`: it ends with 0 at a character that is no digit and with the maximum when it is exceeded. -/
def parseUintLoop (n : Nat) : List Char → Nat
  | [] => n
  | c :: s =>
    if c.isDigit then
      if maxUint64 < 10 * n + (c.toNat - '0'.toNat) then maxUint64
      else parseUintLoop (10 * n + (c.toNat - '0'.toNat)) s
    else 0

/-- The value of `ParseUint(s, 10, 64)`, whatever its error. -/
def parseUint (s : List Char) : Nat := parseUintLoop 0 s

/-- The value of `Atoi`, whatever its error. -/
def atoi (s : List Char) : Int :=
  match s with
  | '-' :: s => if 2 ^ 63 < parseUint s then -2 ^ 63 else -parseUint s
  | '+' :: s => if 2 ^ 63 ≤ parseUint s then 2 ^ 63 - 1 else parseUint s
  | s => if 2 ^ 63 ≤ parseUint s then 2 ^ 63 - 1 else parseUint s

/-! ## The table -/

structure GPUMetrics where
  name : String
  memoryTotal : UInt64
  memoryUsed : UInt64
  memoryFree : UInt64
  utilization : Int
  temperature : Int
  deriving DecidableEq

/-- The body of the loop over the lines; `none` is `continue`. -/
def gpuRow (line : List Char) : Option GPUMetrics :=
  if line = [] then none
  else
    match splitPair ',' ' ' line with
    | name :: total :: used :: free :: utilization :: temperature :: _ =>
      some
        { name := String.ofList (trimSpace name)
          memoryTotal := UInt64.ofNat (parseUint (trimSpace total)) * 1024 * 1024
          memoryUsed := UInt64.ofNat (parseUint (trimSpace used)) * 1024 * 1024
          memoryFree := UInt64.ofNat (parseUint (trimSpace free)) * 1024 * 1024
          utilization := atoi (trimSpace utilization)
          temperature := atoi (trimSpace temperature) }
    | _ => none

/-- The statements of both functions; `output` is `none` when the command fails. -/
def gpuRows (output : Option String) : List GPUMetrics :=
  match output with
  | none => []
  | some output => ((trimSpace output.toList).splitOn '\n').filterMap gpuRow

def getWindowsGPUMetrics (output : Option String) : List GPUMetrics := gpuRows output

def getLinuxGPUMetrics (output : Option String) : List GPUMetrics := gpuRows output

/-! ## GetMetrics -/

structure SystemMetrics where
  cpuLoad : Rat
  memoryTotal : UInt64
  memoryUsed : UInt64
  memoryFree : UInt64
  gpus : List GPUMetrics

/-- What `mem.VirtualMemory` returns. -/
structure VirtualMemory where
  total : UInt64
  used : UInt64
  available : UInt64

/-- The system of a monitor, and what `detectCUDA` has found. -/
structure Host where
  windows : Bool
  hasCUDA : Bool

/-- What a call of `GetMetrics` finds: the memory and the load, unless there is an error, and the output of
nvidia-smi. -/
structure Findings where
  memory : Option VirtualMemory
  cpuPct : Option (List Rat)
  output : Option String

def getGPUMetrics (windows : Bool) (output : Option String) : List GPUMetrics :=
  if windows then getWindowsGPUMetrics output else getLinuxGPUMetrics output

def getMetrics (host : Host) (found : Findings) : SystemMetrics :=
  let metrics : SystemMetrics := ⟨0, 0, 0, 0, []⟩
  let metrics :=
    match found.memory with
    | some v => { metrics with memoryTotal := v.total, memoryUsed := v.used, memoryFree := v.available }
    | none => metrics
  let metrics :=
    match found.cpuPct with
    | some (load :: _) => { metrics with cpuLoad := load }
    | _ => metrics
  if host.hasCUDA then { metrics with gpus := getGPUMetrics host.windows found.output } else metrics

/-- The GPUs of the metrics are rows of nvidia-smi, on either system. -/
theorem gpus_getMetrics (host : Host) (found : Findings) :
    (getMetrics host found).gpus = if host.hasCUDA then gpuRows found.output else [] := by
  obtain ⟨windows, hasCUDA⟩ := host
  cases hasCUDA with
  | false =>
    simp only [getMetrics, Bool.false_eq_true, if_false]
    split <;> split <;> rfl
  | true => cases windows <;> rfl

/-! ## Numerals -/

theorem foldl_digits_le (s : List Char) : ∀ n : Nat,
    n ≤ s.foldl (fun n c => 10 * n + (c.toNat - '0'.toNat)) n := by
  induction s with
  | nil => exact fun n => le_refl n
  | cons c s ih =>
    intro n
    exact le_trans (show n ≤ 10 * n + (c.toNat - '0'.toNat) by omega) (ih _)

/-- The loop saturates. -/
theorem parseUintLoop_digits : ∀ {s : List Char} {n : Nat}, (∀ c ∈ s, c.isDigit = true) → n ≤ maxUint64 →
    parseUintLoop n s = min (s.foldl (fun n c => 10 * n + (c.toNat - '0'.toNat)) n) maxUint64
  | [], n, _, hn => (min_eq_left hn).symm
  | c :: s, n, hs, _ => by
    have hdigit : c.isDigit = true := hs c List.mem_cons_self
    rw [parseUintLoop, if_pos hdigit, List.foldl_cons]
    by_cases hmax : maxUint64 < 10 * n + (c.toNat - '0'.toNat)
    · rw [if_pos hmax, min_eq_right]
      exact hmax.le.trans (foldl_digits_le s _)
    · rw [if_neg hmax, parseUintLoop_digits (fun d hd => hs d (List.mem_cons_of_mem _ hd)) (not_lt.mp hmax)]

/-- **The value of a decimal numeral** of any length. -/
theorem parseUint_digits {s : List Char} (h : ∀ c ∈ s, c.isDigit = true) :
    parseUint s = min (decValue s) maxUint64 :=
  parseUintLoop_digits h (Nat.zero_le _)

theorem parseUint_repr {n : Nat} (h : n < 2 ^ 64) : parseUint n.repr.toList = n := by
  rw [parseUint_digits fun c hc => Digits.isDigit_of_mem_repr hc, Digits.decValue_repr]
  exact min_eq_left (Nat.le_pred_of_lt h)

theorem atoi_repr {n : Nat} (h : n < 2 ^ 63) : atoi n.repr.toList = n := by
  have hvalue := parseUint_repr (n := n) (by omega)
  have hsign : ∀ c ∈ n.repr.toList, c ≠ '-' ∧ c ≠ '+' := by
    intro c hc
    have hdigit := Digits.isDigit_of_mem_repr hc
    constructor <;> rintro rfl <;> exact absurd hdigit (by decide)
  unfold atoi
  split
  · rename_i s hs
    exact absurd rfl (hsign '-' (by rw [hs]; exact List.mem_cons_self)).1
  · rename_i s hs
    exact absurd rfl (hsign '+' (by rw [hs]; exact List.mem_cons_self)).2
  · rw [hvalue, if_neg (by omega)]

/-- Memory in bytes wraps at every `2 ^ 44` MiB. -/
theorem toNat_mib_mod (n : Nat) : (UInt64.ofNat n * 1024 * 1024).toNat = n % 2 ^ 44 * 2 ^ 20 := by
  have h1024 : (1024 : UInt64).toNat = 1024 := rfl
  simp only [UInt64.toNat_mul, UInt64.toNat_ofNat', h1024]
  omega

theorem toNat_mib {n : Nat} (h : n < 2 ^ 44) : (UInt64.ofNat n * 1024 * 1024).toNat = n * 2 ^ 20 := by
  rw [toNat_mib_mod, Nat.mod_eq_of_lt h]

/-! ## Records and lines -/

/-- A GPU as nvidia-smi reports it, with the memory in MiB. -/
structure Record where
  name : String
  memoryTotal : Nat
  memoryUsed : Nat
  memoryFree : Nat
  utilization : Nat
  temperature : Nat
  deriving DecidableEq

structure Record.Valid (r : Record) : Prop where
  newline : '\n' ∉ r.name.toList
  separator : ¬[',', ' '] <:+: r.name.toList
  head : ∀ c ∈ r.name.toList.head?, isSpace c = false
  last : ∀ c ∈ r.name.toList.getLast?, isSpace c = false
  total : r.memoryTotal < 2 ^ 44
  used : r.memoryUsed < 2 ^ 44
  free : r.memoryFree < 2 ^ 44
  utilization : r.utilization < 2 ^ 63
  temperature : r.temperature < 2 ^ 63

/-- The line of a record: its six fields joined by `", "`. -/
def Record.line (r : Record) : List Char :=
  r.name.toList ++ ',' :: ' ' :: (r.memoryTotal.repr.toList ++ ',' :: ' ' :: (r.memoryUsed.repr.toList ++
    ',' :: ' ' :: (r.memoryFree.repr.toList ++ ',' :: ' ' :: (r.utilization.repr.toList ++
      ',' :: ' ' :: r.temperature.repr.toList))))

/-- What the metrics of a GPU say: the memory in bytes, as a number. -/
structure Reading where
  name : String
  memoryTotal : Nat
  memoryUsed : Nat
  memoryFree : Nat
  utilization : Int
  temperature : Int
  deriving DecidableEq

/-- The record with the memory in bytes. -/
def Record.reading (r : Record) : Reading :=
  ⟨r.name, r.memoryTotal * 2 ^ 20, r.memoryUsed * 2 ^ 20, r.memoryFree * 2 ^ 20, r.utilization, r.temperature⟩

def GPUMetrics.reading (g : GPUMetrics) : Reading :=
  ⟨g.name, g.memoryTotal.toNat, g.memoryUsed.toNat, g.memoryFree.toNat, g.utilization, g.temperature⟩

/-- The end of a line before its newline. -/
def carriageReturn (crlf : Bool) : List Char := if crlf then ['\r'] else []

/-- A numeral has no separator in it. -/
theorem repr_no_separator (n : Nat) {l : List Char} (hl : ∀ c ∈ l, c ≠ ',') : ¬[',', ' '] <:+: n.repr.toList ++ l := by
  intro h
  rcases List.mem_append.mp (h.subset List.mem_cons_self) with hc | hc
  · exact absurd (Digits.isDigit_of_mem_repr hc) (by decide)
  · exact hl _ hc rfl

theorem isSpace_of_isDigit {c : Char} (h : c.isDigit = true) : isSpace c = false := by
  have hrange : 48 ≤ c.toNat ∧ c.toNat ≤ 57 := by
    rw [Char.isDigit, Bool.and_eq_true, decide_eq_true_eq, decide_eq_true_eq] at h
    exact h
  simp only [isSpace, List.mem_cons, List.not_mem_nil, or_false, decide_eq_false_iff_not]
  omega

theorem trimSpace_repr (n : Nat) : trimSpace n.repr.toList = n.repr.toList :=
  Split.trim_of_ends
    (fun _ hc => isSpace_of_isDigit (Digits.isDigit_of_mem_repr (List.mem_of_mem_head? hc)))
    (fun _ hc => isSpace_of_isDigit (Digits.isDigit_of_mem_repr (List.mem_of_mem_getLast? hc)))

/-- The fields of a record's line, with either line end. -/
theorem splitPair_line {r : Record} (h : r.Valid) (crlf : Bool) :
    splitPair ',' ' ' (r.line ++ carriageReturn crlf) =
      [r.name.toList, r.memoryTotal.repr.toList, r.memoryUsed.repr.toList, r.memoryFree.repr.toList,
        r.utilization.repr.toList, r.temperature.repr.toList ++ carriageReturn crlf] := by
  have hcomma : (',' : Char) ≠ ' ' := by decide
  have hnum : ∀ n : Nat, ¬[',', ' '] <:+: n.repr.toList := by
    intro n
    simpa using repr_no_separator n (l := []) (by simp)
  have hcr : ∀ c ∈ carriageReturn crlf, c ≠ ',' := by
    cases crlf <;> simp [carriageReturn]
  simp only [Record.line, List.append_assoc, List.cons_append]
  rw [Split.splitPair_append hcomma _ h.separator, Split.splitPair_append hcomma _ (hnum _),
    Split.splitPair_append hcomma _ (hnum _), Split.splitPair_append hcomma _ (hnum _),
    Split.splitPair_append hcomma _ (hnum _), Split.splitPair_eq_singleton (repr_no_separator _ hcr)]

/-- The metrics of a record. -/
def Record.metrics (r : Record) : GPUMetrics where
  name := r.name
  memoryTotal := UInt64.ofNat r.memoryTotal * 1024 * 1024
  memoryUsed := UInt64.ofNat r.memoryUsed * 1024 * 1024
  memoryFree := UInt64.ofNat r.memoryFree * 1024 * 1024
  utilization := r.utilization
  temperature := r.temperature

/-- **The metrics of a record are the record in bytes.** -/
theorem reading_metrics {r : Record} (h : r.Valid) : r.metrics.reading = r.reading := by
  simp only [GPUMetrics.reading, Record.metrics, Record.reading, toNat_mib h.total, toNat_mib h.used, toNat_mib h.free]

/-- **The row of a record's line.** -/
theorem gpuRow_line {r : Record} (h : r.Valid) (crlf : Bool) :
    gpuRow (r.line ++ carriageReturn crlf) = some r.metrics := by
  have hne : r.line ++ carriageReturn crlf ≠ [] := by simp [Record.line]
  have hname : trimSpace r.name.toList = r.name.toList := Split.trim_of_ends h.head h.last
  have hlast : trimSpace (r.temperature.repr.toList ++ carriageReturn crlf) = r.temperature.repr.toList := by
    cases crlf with
    | true => exact (Split.trim_concat (by decide) _).trans (trimSpace_repr _)
    | false => simpa [carriageReturn] using trimSpace_repr r.temperature
  have hvalue : ∀ {n : Nat}, n < 2 ^ 44 → parseUint n.repr.toList = n := fun hn => parseUint_repr (by omega)
  rw [gpuRow, if_neg hne, splitPair_line h]
  simp only [Record.metrics, hname, hlast, trimSpace_repr, hvalue h.total, hvalue h.used, hvalue h.free,
    atoi_repr h.utilization, atoi_repr h.temperature, String.ofList_toList]

/-! ## The output -/

/-- A line of the output: a record, or a line with fewer than six fields. -/
inductive Line where
  | record (r : Record)
  | other (text : List Char)

def Line.text : Line → List Char
  | .record r => r.line
  | .other text => text

def Line.Valid : Line → Prop
  | .record r => r.Valid
  | .other text => '\n' ∉ text ∧ (splitPair ',' ' ' text).length < 6

def Line.record? : Line → Option Record
  | .record r => some r
  | .other _ => none

/-- The output: lines, each with its line end, the newline of the last one being optional. -/
structure Report where
  lines : List (Line × Bool)
  trailing : Bool

/-- The lines with what precedes their newlines. -/
def Report.texts (p : Report) : List (List Char) := p.lines.map fun l => l.1.text ++ carriageReturn l.2

def Report.text (p : Report) : List Char := ['\n'].intercalate p.texts ++ if p.trailing then ['\n'] else []

def Report.records (p : Report) : List Record := p.lines.filterMap fun l => l.1.record?

/-- A line that the trimming of the output does not spoil: a record's, or one with fewer than six fields. -/
def Good (line : List Char) : Prop :=
  (splitPair ',' ' ' line).length < 6 ∨ ∃ (r : Record) (crlf : Bool), r.Valid ∧ line = r.line ++ carriageReturn crlf

/-- A line with fewer than six fields has no row. -/
theorem gpuRow_short {line : List Char} (h : (splitPair ',' ' ' line).length < 6) : gpuRow line = none := by
  unfold gpuRow
  split
  · rfl
  · split
    · rename_i hfields
      rw [hfields] at h
      simp at h
      omega
    · rfl

/-- A record's line begins with its name, or with a comma, and ends with a digit. -/
theorem Record.line_head {r : Record} (h : r.Valid) : ∃ c rest, r.line = c :: rest ∧ isSpace c = false := by
  have hhead := h.head
  unfold Record.line
  cases hname : r.name.toList with
  | nil => exact ⟨',', _, rfl, by decide⟩
  | cons d name =>
    rw [hname] at hhead
    exact ⟨d, _, rfl, hhead d rfl⟩

theorem Record.line_last {r : Record} {c : Char} {line : List Char} (h : r.line = line ++ [c]) : isSpace c = false := by
  obtain ⟨init, hinit⟩ : ∃ init, r.line = init ++ r.temperature.repr.toList :=
    ⟨r.name.toList ++ ',' :: ' ' :: (r.memoryTotal.repr.toList ++ ',' :: ' ' :: (r.memoryUsed.repr.toList ++
      ',' :: ' ' :: (r.memoryFree.repr.toList ++ ',' :: ' ' :: (r.utilization.repr.toList ++ [',', ' '])))),
      by simp [Record.line]⟩
  have hlast := congrArg List.getLast? (hinit.symm.trans h)
  rw [List.getLast?_append_of_ne_nil _ (Digits.repr_ne_nil _), List.getLast?_concat] at hlast
  exact isSpace_of_isDigit (Digits.isDigit_of_mem_repr (List.mem_of_getLast? hlast))

/-- **Trimming does not spoil a good line.** -/
theorem gpuRow_insensitive : Split.Insensitive isSpace '\n' gpuRow Good := by
  refine ⟨rfl, ?_, ?_⟩
  · rintro c line hc - (hshort | ⟨r, crlf, hr, hline⟩)
    · have hshort' := lt_of_le_of_lt (Split.length_splitPair_cons (by decide) c line) hshort
      rw [gpuRow_short hshort, gpuRow_short hshort']
      exact ⟨rfl, .inl hshort'⟩
    · obtain ⟨d, rest, hd, hspace⟩ := r.line_head hr
      rw [hd, List.cons_append] at hline
      rw [(List.cons.inj hline).1, hspace] at hc
      cases hc
  · rintro c line hc - (hshort | ⟨r, crlf, hr, hline⟩)
    · have hshort' := lt_of_le_of_lt (Split.length_splitPair_concat c line).1 hshort
      rw [gpuRow_short hshort, gpuRow_short hshort']
      exact ⟨rfl, .inl hshort'⟩
    · cases crlf with
      | true =>
        -- The blank is the carriage return.
        obtain ⟨hl, -⟩ := List.append_inj' hline rfl
        have hrow : gpuRow r.line = some r.metrics := by simpa [carriageReturn] using gpuRow_line hr false
        rw [hline, gpuRow_line hr true, hl, hrow]
        exact ⟨rfl, .inr ⟨r, false, hr, by simp [carriageReturn]⟩⟩
      | false =>
        rw [carriageReturn, if_neg Bool.false_ne_true, List.append_nil] at hline
        rw [Record.line_last hline.symm] at hc
        cases hc

/-! ## The round trip -/

theorem Record.newline_not_mem_line {r : Record} (h : r.Valid) : '\n' ∉ r.line := by
  have hnum : ∀ n : Nat, '\n' ∉ n.repr.toList := fun n hc =>
    absurd (Digits.isDigit_of_mem_repr hc) (by decide)
  have hsep : ∀ l : List Char, '\n' ∉ l → '\n' ∉ ',' :: ' ' :: l := by
    intro l hl
    simpa using hl
  simp only [Record.line, List.mem_append, not_or]
  exact ⟨h.newline, hsep _ (List.not_mem_append (hnum _) (hsep _ (List.not_mem_append (hnum _) (hsep _
    (List.not_mem_append (hnum _) (hsep _ (List.not_mem_append (hnum _) (hsep _ (hnum _)))))))))⟩

theorem newline_not_mem_text {l : Line} (h : l.Valid) (crlf : Bool) : '\n' ∉ l.text ++ carriageReturn crlf := by
  have hcr : '\n' ∉ carriageReturn crlf := by cases crlf <;> decide
  refine List.not_mem_append ?_ hcr
  cases l with
  | record r => exact r.newline_not_mem_line h
  | other text => exact h.1

/-- A line end does not add a field. -/
theorem length_splitPair_text {text : List Char} (crlf : Bool) :
    (splitPair ',' ' ' (text ++ carriageReturn crlf)).length = (splitPair ',' ' ' text).length := by
  cases crlf with
  | true => exact (Split.length_splitPair_concat '\r' text).2 (by decide)
  | false => rw [carriageReturn, if_neg Bool.false_ne_true, List.append_nil]

theorem good_text {l : Line} (h : l.Valid) (crlf : Bool) : Good (l.text ++ carriageReturn crlf) := by
  cases l with
  | record r => exact .inr ⟨r, crlf, h, rfl⟩
  | other text => exact .inl (lt_of_eq_of_lt (length_splitPair_text crlf) h.2)

/-- The row of a line is the one of its record. -/
theorem gpuRow_text {l : Line} (h : l.Valid) (crlf : Bool) :
    gpuRow (l.text ++ carriageReturn crlf) = l.record?.map Record.metrics := by
  cases l with
  | record r => exact gpuRow_line h crlf
  | other text => exact gpuRow_short (lt_of_eq_of_lt (length_splitPair_text crlf) h.2)

/-- The lines that the output is split into, with empty ones after them. -/
theorem splitOn_text {p : Report} (h : ∀ l ∈ p.lines, l.1.Valid) :
    ∃ blanks, (∀ line ∈ blanks, line = []) ∧ p.text.splitOn '\n' = p.texts ++ blanks := by
  have hlines : ∀ line ∈ p.texts, '\n' ∉ line := by
    intro line hline
    obtain ⟨l, hl, rfl⟩ := List.mem_map.mp hline
    exact newline_not_mem_text (h l hl) l.2
  have hjoin : ∃ blanks, (∀ line ∈ blanks, line = []) ∧
      (['\n'].intercalate p.texts).splitOn '\n' = p.texts ++ blanks := by
    by_cases hne : p.texts = []
    · rw [hne]
      exact ⟨[[]], by simp, List.splitOn_nil _⟩
    · exact ⟨[], by simp, by rw [List.splitOn_intercalate _ hlines hne, List.append_nil]⟩
  obtain ⟨blanks, hblanks, hsplit⟩ := hjoin
  unfold Report.text
  cases p.trailing with
  | true =>
    refine ⟨blanks ++ [[]], fun line hline => ?_, ?_⟩
    · rcases List.mem_append.mp hline with hline | hline
      · exact hblanks line hline
      · exact List.mem_singleton.mp hline
    · rw [if_pos rfl, List.splitOn_append_cons_self, hsplit, List.splitOn_nil, List.append_assoc]
  | false => exact ⟨blanks, hblanks, by rw [if_neg Bool.false_ne_true, List.append_nil, hsplit]⟩

/-- **The rows of the output** are its records. -/
theorem gpuRows_report {p : Report} (h : ∀ l ∈ p.lines, l.1.Valid) :
    gpuRows (some (String.ofList p.text)) = p.records.map Record.metrics := by
  obtain ⟨blanks, hblanks, hsplit⟩ := splitOn_text h
  have hgood : ∀ line ∈ p.text.splitOn '\n', Good line := by
    rw [hsplit]
    intro line hline
    rcases List.mem_append.mp hline with hline | hline
    · obtain ⟨l, hl, rfl⟩ := List.mem_map.mp hline
      exact good_text (h l hl) l.2
    · rw [hblanks line hline]
      exact .inl (by decide)
  have hrows : p.texts.filterMap gpuRow = p.records.map Record.metrics := by
    rw [Report.texts, Report.records, List.filterMap_map, List.map_filterMap]
    exact List.filterMap_congr fun l hl => gpuRow_text (h l hl) l.2
  have hnone : blanks.filterMap gpuRow = [] := by
    refine List.filterMap_eq_nil_iff.mpr fun line hline => ?_
    rw [hblanks line hline]
    rfl
  show ((trimSpace (String.ofList p.text).toList).splitOn '\n').filterMap gpuRow = _
  rw [String.toList_ofList, trimSpace, Split.filterMap_trim gpuRow_insensitive hgood, hsplit, List.filterMap_append,
    hrows, hnone, List.append_nil]

/-- **The report round trip**, for every list of records, with any other lines around them and either line end: both
functions return the records in order, with the memory in bytes. -/
theorem report_roundTrip (p : Report) (h : ∀ l ∈ p.lines, l.1.Valid) :
    (getLinuxGPUMetrics (some (String.ofList p.text))).map GPUMetrics.reading = p.records.map Record.reading ∧
      (getWindowsGPUMetrics (some (String.ofList p.text))).map GPUMetrics.reading = p.records.map Record.reading := by
  have hvalid : ∀ r ∈ p.records, r.Valid := by
    intro r hr
    obtain ⟨⟨l, crlf⟩, hl, hrecord⟩ := List.mem_filterMap.mp hr
    cases l with
    | record r' =>
      cases hrecord
      exact h _ hl
    | other text => cases hrecord
  have hbytes : (gpuRows (some (String.ofList p.text))).map GPUMetrics.reading = p.records.map Record.reading := by
    rw [gpuRows_report h, List.map_map]
    exact List.map_congr_left fun r hr => reading_metrics (hvalid r hr)
  exact ⟨hbytes, hbytes⟩

/-- A GPU without a name, a short line, and one whose name has commas, with both line ends. -/
def mixedReport : Report where
  lines := [(.record ⟨"", 8192, 100, 8092, 3, 41⟩, true), (.other "a, b".toList, false), (.other [], true),
    (.record ⟨"A,100,", 81920, 0, 81920, 0, 35⟩, false)]
  trailing := true

theorem mixedReport_roundTrip :
    (getLinuxGPUMetrics (some (String.ofList mixedReport.text))).map GPUMetrics.reading =
        mixedReport.records.map Record.reading ∧
      (getWindowsGPUMetrics (some (String.ofList mixedReport.text))).map GPUMetrics.reading =
        mixedReport.records.map Record.reading := by
  refine report_roundTrip mixedReport fun l hl => ?_
  simp only [mixedReport, List.mem_cons, List.not_mem_nil, or_false] at hl
  rcases hl with rfl | rfl | rfl | rfl
  · exact ⟨by decide, by decide, (fun c hc => by cases hc), (fun c hc => by cases hc), by decide, by decide, by decide,
      by decide, by decide⟩
  · exact ⟨by decide, by decide⟩
  · exact ⟨by decide, by decide⟩
  · exact ⟨by decide, by decide +kernel, (fun c hc => by cases hc; rfl), (fun c hc => by cases hc; rfl), by decide,
      by decide, by decide, by decide, by decide⟩

end LaManchaland.Monitor
