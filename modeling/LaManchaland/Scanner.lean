import LaManchaland.Registry
import LaManchaland.Lib.Runs

/-!
# The scanner on a sequence of announcements

The goroutine of `StartScanner` runs a round for each entry that zeroconf delivers; a round that ends in an index panic
ends the program. An entry without an IPv4 address is stored under the empty host, so such entries are told apart by
their ports alone (`key_addressless`), the later one replacing the earlier (`lookup_addressless`), and its round does
not survive (`scan_isSome`).

`scanned_iff`: the scanner survives a sequence, with all its workers kept apart, exactly when every entry has an
address.
-/

namespace LaManchaland

open Runs

/-- An entry that the scanner reads, with the clock at its round. -/
structure Announcement where
  now : Nat
  entry : ServiceEntry

/-- A round of the goroutine. -/
def scanRound (d : Discovery) (a : Announcement) : Option Discovery := d.scan a.now a.entry

/-- The key under which a round stores its entry. -/
def Announcement.key (a : Announcement) : String := (RegistryOp.scan a.now a.entry).key

/-- The entry has no IPv4 address. -/
def Announcement.Addressless (a : Announcement) : Prop := a.entry.addrIPv4 = []

instance (a : Announcement) : Decidable a.Addressless := inferInstanceAs (Decidable (_ = []))

/-- Different workers without an address have different registry entries. -/
def Apart (as : List Announcement) : Prop :=
  ∀ a ∈ as, ∀ b ∈ as, a.Addressless → b.Addressless →
    (a.entry.inst, a.entry.port) ≠ (b.entry.inst, b.entry.port) → a.key ≠ b.key

/-- All announcements are processed, and their workers kept apart. -/
structure Scanned (d : Discovery) (as : List Announcement) : Prop where
  processed : ∃ d', exec scanRound d as = some d'
  apart : Apart as

section Rounds

variable {d : Discovery} {a b : Announcement}

/-- A round ends well when the entry has an address. -/
theorem scan_isSome : (scanRound d a).isSome = true ↔ ¬a.Addressless := by
  unfold scanRound Discovery.scan Announcement.Addressless
  cases a.entry.addrIPv4 <;> simp

/-- What a round does that ends well. -/
theorem scanRound_eq (h : ¬a.Addressless) : scanRound d a = some (RegistryOp.run d (.scan a.now a.entry)) := by
  unfold Announcement.Addressless at h
  unfold scanRound Discovery.scan
  cases he : a.entry.addrIPv4 with
  | nil => exact absurd he h
  | cons ip ips => rfl

/-- The sequences that the scanner gets through. -/
theorem exec_scanRound : ∀ (as : List Announcement) (d : Discovery),
    (∃ d', exec scanRound d as = some d') ↔ ∀ a ∈ as, ¬a.Addressless
  | [], d => iff_of_true ⟨d, rfl⟩ fun a ha => absurd ha List.not_mem_nil
  | a :: as, d => by
    rw [List.forall_mem_cons, exec_cons]
    by_cases h : a.Addressless
    · have hnone : scanRound d a = none := Option.not_isSome_iff_eq_none.mp fun hs => scan_isSome.mp hs h
      simp [hnone, h]
    · rw [scanRound_eq h, Option.bind_some, exec_scanRound as]
      exact (and_iff_right h).symm

/-- What the scanner leaves when it gets through. -/
theorem exec_scanRound_eq : ∀ (as : List Announcement) (d : Discovery), (∀ a ∈ as, ¬a.Addressless) →
    exec scanRound d as = some ((as.map fun a => RegistryOp.scan a.now a.entry).foldl RegistryOp.run d)
  | [], _, _ => rfl
  | a :: as, d, h => by
    rw [List.forall_mem_cons] at h
    rw [exec_cons, scanRound_eq h.1, Option.bind_some, exec_scanRound_eq as _ h.2]
    rfl

/-- **Entries without an address share a key when they have one port**, whatever their names. -/
theorem key_addressless (ha : a.Addressless) (hb : b.Addressless) : a.key = b.key ↔ a.entry.port = b.entry.port := by
  have key : ∀ {x : Announcement}, x.Addressless → x.key = endpoint "" x.entry.port := by
    intro x hx
    have hx : x.entry.addrIPv4 = [] := hx
    show endpoint (parseEntry x.now x.entry).host x.entry.port = _
    simp [parseEntry, hx]
  rw [key ha, key hb]
  constructor
  · intro h
    have hpair : (("" : String), a.entry.port) = ("", b.entry.port) := endpoint_injective h
    exact (Prod.mk.inj hpair).2
  · intro h
    rw [h]

/-- Then the insert of the later one replaces the earlier one. -/
theorem lookup_addressless (ha : a.Addressless) (hb : b.Addressless) (h : a.entry.port = b.entry.port) :
    (RegistryOp.run (RegistryOp.run d (.scan a.now a.entry)) (.scan b.now b.entry)).workers.lookup a.key =
      some (parseEntry b.now b.entry) := by
  rw [(key_addressless ha hb).mpr h]
  exact AList.lookup_insert _

end Rounds

/-- The sequences whose workers are kept apart: entries without an address that have one port have one name. -/
theorem apart_iff (as : List Announcement) : Apart as ↔ ∀ a ∈ as, ∀ b ∈ as, a.Addressless → b.Addressless →
    a.entry.port = b.entry.port → a.entry.inst = b.entry.inst := by
  unfold Apart
  refine forall₂_congr fun a _ => forall₂_congr fun b _ => forall₂_congr fun ha hb => ?_
  rw [ne_eq, ne_eq, key_addressless ha hb, not_imp_not, Prod.mk.injEq]
  exact ⟨fun h hp => (h hp).1, fun h hp => ⟨h hp, hp⟩⟩

/-- **When the scanner survives a sequence of announcements**: every entry has an IPv4 address. -/
theorem scanned_iff (d : Discovery) (as : List Announcement) : Scanned d as ↔ ∀ a ∈ as, ¬a.Addressless := by
  constructor
  · intro h
    exact (exec_scanRound as d).mp h.processed
  · intro h
    exact ⟨(exec_scanRound as d).mpr h, (apart_iff as).mpr fun a ha _ _ hna => absurd hna (h a ha)⟩

/-- The entry of a worker whose host only has IPv6 addresses. -/
def ipv6Only (name : String) : Announcement := ⟨0, ⟨name, [], 50051, []⟩⟩

/-- The first of two such entries ends the scanner, and they would share one registry entry. -/
theorem scanned_ipv6Only : ¬∀ (d : Discovery) (as : List Announcement), Scanned d as := by
  intro h
  obtain ⟨d', hd'⟩ := (h newDiscovery [ipv6Only "w1", ipv6Only "w2"]).processed
  cases hd'

end LaManchaland
