import LaManchaland.Lib.Float64
import LaManchaland.Monitor
import Mathlib.Data.List.Forall2

/-!
# The memory of a row

nvidia-smi prints numbers of MiB, and the three memory fields of a row are bytes in words of 64 bits: `ParseUint`
saturates with an error that is ignored, and the multiplication wraps, so that only the place of a number in its block
of `2 ^ 44` is left (`toNat_bytes`).

* `bytes_le_iff`: when the bytes of two numbers are ordered as the numbers are.
* `keepsOrder_iff`: the memory of a row is ordered as its numerals are exactly when they are `BlocksInOrder`, as they
  are below `2 ^ 44` (`blocksInOrder_of_lt`).
* `not_keepsOrder`: a row that uses more than its total.
* `isDouble_memory`: the bytes of a row are doubles, however they wrap.
-/

namespace LaManchaland.Monitor

open Digits (decValue)
open Split (splitPair)

/-! ## Rows and their numbers -/

/-- The lines of the output that give a row. -/
def acceptedLines (output : String) : List (List Char) :=
  ((trimSpace output.toList).splitOn '\n').filter fun line => (gpuRow line).isSome

/-- `P` holds of every row of either function, with the line it comes from. -/
def EachRow (output : String) (P : List Char → GPUMetrics → Prop) : Prop :=
  List.Forall₂ P (acceptedLines output) (getLinuxGPUMetrics (some output)) ∧
    List.Forall₂ P (acceptedLines output) (getWindowsGPUMetrics (some output))

/-- The second, the third and the fourth field of a line. -/
def memoryFields (line : List Char) : List (List Char) := (((splitPair ',' ' ' line).drop 1).take 3).map trimSpace

/-- The memory fields are decimal numerals. -/
def Numerals (line : List Char) : Prop := ∀ s ∈ memoryFields line, s ≠ [] ∧ ∀ c ∈ s, c.isDigit = true

/-- The numbers of a line whose memory fields are numerals. -/
def memoryNumbers (line : List Char) : List Nat := (memoryFields line).map decValue

def GPUMetrics.memory (g : GPUMetrics) : List UInt64 := [g.memoryTotal, g.memoryUsed, g.memoryFree]

/-- The words are ordered as the numbers in their places are. -/
def KeepsOrder (numbers : List Nat) (words : List UInt64) : Prop :=
  ∀ p ∈ numbers.zip words, ∀ q ∈ numbers.zip words, p.1 ≤ q.1 → p.2 ≤ q.2

/-- Of two numbers in different blocks of `2 ^ 44`, the one in the later block is not the lower one in its block, unless
it is `2 ^ 64` or more. -/
def BlocksInOrder (numbers : List Nat) : Prop :=
  ∀ a ∈ numbers, ∀ b ∈ numbers, b < 2 ^ 64 → a / 2 ^ 44 < b / 2 ^ 44 → a % 2 ^ 44 ≤ b % 2 ^ 44

/-! ## Bytes -/

/-- The bytes of a number of MiB, as the rows have them. -/
def bytes (n : Nat) : UInt64 := UInt64.ofNat (min n maxUint64) * 1024 * 1024

theorem toNat_bytes (n : Nat) : (bytes n).toNat = min n maxUint64 % 2 ^ 44 * 2 ^ 20 := toNat_mib_mod _

/-- **The order of the bytes of two numbers.** -/
theorem bytes_le_iff {a b : Nat} (h : a ≤ b) :
    bytes a ≤ bytes b ↔ (b < 2 ^ 64 → a / 2 ^ 44 < b / 2 ^ 44 → a % 2 ^ 44 ≤ b % 2 ^ 44) := by
  rw [UInt64.le_iff_toNat_le, toNat_bytes, toNat_bytes, maxUint64]
  omega

/-- The bytes of numbers in their places. -/
theorem keepsOrder_bytes (numbers : List Nat) : KeepsOrder numbers (numbers.map bytes) ↔ BlocksInOrder numbers := by
  have hzip : numbers.zip (numbers.map bytes) = numbers.map fun n => (n, bytes n) := by
    rw [List.map_prod_left_eq_zip]
  simp only [KeepsOrder, hzip, List.forall_mem_map, BlocksInOrder]
  refine forall₂_congr fun a _ => forall₂_congr fun b _ => ⟨fun h hb hblock => ?_, fun h hle => ?_⟩
  · have hle : a ≤ b := (Nat.lt_of_div_lt_div hblock).le
    exact (bytes_le_iff hle).mp (h hle) hb hblock
  · exact (bytes_le_iff hle).mpr h

/-- Numbers below `2 ^ 44` are in one block. -/
theorem blocksInOrder_of_lt {numbers : List Nat} (h : ∀ n ∈ numbers, n < 2 ^ 44) : BlocksInOrder numbers := by
  intro a _ b hb _ hblock
  have hlt := h b hb
  omega

/-! ## The memory of a row -/

theorem memory_of_gpuRow {line : List Char} {g : GPUMetrics} (h : gpuRow line = some g) :
    g.memory = (memoryFields line).map fun s => UInt64.ofNat (parseUint s) * 1024 * 1024 := by
  unfold gpuRow at h
  split at h
  · cases h
  · split at h
    · rename_i hfields
      cases h
      rw [memoryFields, hfields]
      rfl
    · cases h

/-- The memory of a row of numerals. -/
theorem memory_of_numerals {line : List Char} {g : GPUMetrics} (h : gpuRow line = some g)
    (hnum : Numerals line) : g.memory = (memoryNumbers line).map bytes := by
  rw [memory_of_gpuRow h, memoryNumbers, List.map_map]
  refine List.map_congr_left fun s hs => ?_
  rw [parseUint_digits (hnum s hs).2]
  rfl

/-- The memory fields that a driver prints are numerals. -/
theorem numerals_of_repr {line : List Char} {numbers : List Nat}
    (h : memoryFields line = numbers.map fun n => n.repr.toList) : Numerals line ∧ memoryNumbers line = numbers := by
  refine ⟨?_, ?_⟩
  · intro s hs
    rw [h] at hs
    obtain ⟨n, -, rfl⟩ := List.mem_map.mp hs
    exact ⟨Digits.repr_ne_nil n, fun c hc => Digits.isDigit_of_mem_repr hc⟩
  · rw [memoryNumbers, h, List.map_map]
    exact (List.map_congr_left fun n _ => Digits.decValue_repr n).trans (List.map_id _)

/-- **The memory of a GPU is a double.** -/
theorem isDouble_memory {output : Option String} {g : GPUMetrics} (hg : g ∈ gpuRows output) :
    ∀ n ∈ g.memory, Float64.IsDouble (n.toNat : ℚ) := by
  intro n hn
  cases output with
  | none => cases hg
  | some output =>
    obtain ⟨line, -, hrow⟩ := List.mem_filterMap.mp hg
    rw [memory_of_gpuRow hrow] at hn
    obtain ⟨s, -, rfl⟩ := List.mem_map.mp hn
    rw [toNat_mib_mod]
    have hlt : parseUint s % 2 ^ 44 < 2 ^ 44 := Nat.mod_lt _ (by decide)
    generalize parseUint s % 2 ^ 44 = k at hlt
    refine ⟨?_, k, 20, ?_, by decide, ?_⟩
    · have hpow : ∀ e, 64 ≤ e → 2 ^ 44 * 2 ^ 20 ≤ 2 ^ e := fun e he =>
        (pow_add 2 44 20).symm.trans_le (Nat.pow_le_pow_right (by decide) he)
      have hbound : k * 2 ^ 20 < 2 ^ 1024 :=
        lt_of_lt_of_le (Nat.mul_lt_mul_of_pos_right hlt (by decide)) (hpow 1024 (by decide))
      rw [Nat.abs_cast]
      exact_mod_cast hbound
    · rw [Nat.abs_cast]
      omega
    · push_cast
      rfl

theorem forall₂_filterMap {α β : Type*} (f : α → Option β) : ∀ l : List α,
    List.Forall₂ (fun a b => f a = some b) (l.filter fun a => (f a).isSome) (l.filterMap f)
  | [] => .nil
  | a :: l => by
    cases h : f a with
    | none => simpa [h] using forall₂_filterMap f l
    | some b => simpa [h] using forall₂_filterMap f l

/-- **Each row comes from its line**, in either function. -/
theorem eachRow_of_gpuRow {output : String} {P : List Char → GPUMetrics → Prop}
    (h : ∀ line g, gpuRow line = some g → P line g) : EachRow output P :=
  and_self_iff.mpr ((forall₂_filterMap gpuRow _).imp h)

/-- **When the memory of a row keeps the order of its numbers**: for every output and every row of either function, if
the memory fields of its line are numerals, of any length, the bytes are ordered as the numbers are exactly when the
numbers are `BlocksInOrder`. -/
theorem keepsOrder_iff (output : String) :
    EachRow output fun line g => Numerals line →
      (KeepsOrder (memoryNumbers line) g.memory ↔ BlocksInOrder (memoryNumbers line)) := by
  refine eachRow_of_gpuRow fun line g hrow hnum => ?_
  rw [memory_of_numerals hrow hnum]
  exact keepsOrder_bytes _

/-- A GPU of `2 ^ 44` MiB. -/
def wrappingOutput : String := "GPU, 17592186044416, 100, 8192, 0, 35\n"

def wrappingLine : List Char := "GPU, 17592186044416, 100, 8192, 0, 35".toList

theorem acceptedLines_wrapping : acceptedLines wrappingOutput = [wrappingLine] := by decide +kernel

theorem gpuRows_wrapping :
    gpuRows (some wrappingOutput) = [⟨"GPU", 0, 100 * 1024 * 1024, 8192 * 1024 * 1024, 0, 35⟩] := by decide +kernel

theorem memoryFields_wrapping :
    memoryFields wrappingLine = [2 ^ 44, 100, 8192].map fun n => n.repr.toList := by decide +kernel

/-- **A row out of order**: the total is 0 bytes, and the 100 MiB in use are more. -/
theorem not_keepsOrder :
    ¬EachRow wrappingOutput fun line g => Numerals line → KeepsOrder (memoryNumbers line) g.memory := by
  rintro ⟨hlinux, -⟩
  rw [acceptedLines_wrapping, getLinuxGPUMetrics, gpuRows_wrapping, List.forall₂_cons] at hlinux
  obtain ⟨hnum, hnumbers⟩ := numerals_of_repr memoryFields_wrapping
  have hused := hlinux.1 hnum
  rw [hnumbers] at hused
  exact absurd (hused (100, 100 * 1024 * 1024) (by decide) (2 ^ 44, 0) (by decide) (by decide)) (by decide)

end LaManchaland.Monitor
