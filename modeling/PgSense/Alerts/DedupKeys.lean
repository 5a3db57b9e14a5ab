import PgSense.Alerts.Dedup
import PgSense.Library.Hashing
import PgSense.TextBytes

/-! What a deduplication key is computed from: a stream of bytes from which the six fields
can be read back, so that only a collision of the hash function confuses two findings. -/

namespace PgSense
open Library Library.Window
set_option autoImplicit false

/-- The terminator 0xFF is not a byte of any text. -/
theorem strHash_selfDelimiting : SelfDelimiting strHash := by
  apply SelfDelimiting.terminated
  · exact fun _ _ h => utf8_inj h
  · intro s hmem
    have hlt := utf8_lt hmem
    have hbyte : (0xFF : UInt8).toNat = 0xFF := rfl
    omega

/-- The byte at `i` of a 64-bit value. -/
theorem toNat_shiftRight_byte (n : UInt64) {i : Nat} (hi : i < 8) :
    (n >>> UInt64.ofNat (8 * i)).toUInt8.toNat = (n.toNat >>> (8 * i)) % 256 := by
  rw [UInt64.toNat_toUInt8, UInt64.toNat_shiftRight, UInt64.toNat_ofNat',
    Nat.mod_eq_of_lt (by omega : 8 * i < 2 ^ 64), Nat.mod_eq_of_lt (by omega : 8 * i < 64)]

theorem u64Hash_injective : Function.Injective u64Hash := by
  intro m n h
  have hbytes : ∀ i < 8, (m.toNat >>> (8 * i)) % 256 = (n.toNat >>> (8 * i)) % 256 := by
    intro i hi
    have hbyte := List.map_inj_left.mp h i (List.mem_range.mpr hi)
    rw [← toNat_shiftRight_byte m hi, ← toNat_shiftRight_byte n hi, hbyte]
  apply UInt64.toNat_inj.mp
  apply Nat.eq_of_testBit_eq
  intro j
  by_cases hj : j < 64
  · -- bit `j` is bit `j % 8` of byte `j / 8`
    have hbit := congrArg (fun b => b.testBit (j % 8)) (hbytes (j / 8) (by omega))
    rw [show 256 = 2 ^ 8 from rfl] at hbit
    simp only [Nat.testBit_mod_two_pow, Nat.testBit_shiftRight, Nat.mod_lt j (by omega : 8 > 0),
      decide_true, Bool.true_and, Nat.div_add_mod] at hbit
    exact hbit
  · have hhigh : ∀ k : UInt64, k.toNat < 2 ^ j := fun k =>
      Nat.lt_of_lt_of_le k.toNat_lt (Nat.pow_le_pow_right (by omega) (by omega))
    rw [Nat.testBit_lt_two_pow (hhigh m), Nat.testBit_lt_two_pow (hhigh n)]

theorem u64Hash_selfDelimiting : SelfDelimiting u64Hash :=
  SelfDelimiting.fixedLength u64Hash_injective fun n => by
    rw [u64Hash, List.length_map, List.length_range]

/-- The fields that tell one alert from another. -/
def SameAlert (f g : Finding) : Prop :=
  f.database = g.database ∧ f.schemaName = g.schemaName ∧ f.tableName = g.tableName ∧
    f.columnName = g.columnName ∧ f.ruleId = g.ruleId ∧ f.valueHash = g.valueHash

/-- No part of one field can pass for a part of the next. -/
theorem dedupBytes_eq_iff (f g : Finding) : dedupBytes f = dedupBytes g ↔ SameAlert f g := by
  have hstr : ∀ {s t : String} {us vs : List UInt8},
      strHash s ++ us = strHash t ++ vs ↔ s = t ∧ us = vs := strHash_selfDelimiting.append_iff
  simp only [dedupBytes, List.append_assoc]
  rw [hstr, hstr, hstr, hstr, hstr, u64Hash_selfDelimiting.eq_iff]
  rfl

/-- Two byte streams that the hash function confuses. -/
def Collision (cr : Crates) : Prop := ∃ a b, a ≠ b ∧ cr.defaultHash a = cr.defaultHash b

theorem collision_of_dedupKey_eq {cr : Crates} {f g : Finding} (h : dedupKey cr f = dedupKey cr g) :
    SameAlert f g ∨ Collision cr := by
  by_cases hsame : SameAlert f g
  · exact .inl hsame
  · have hne : dedupBytes f ≠ dedupBytes g := fun heq => hsame ((dedupBytes_eq_iff f g).mp heq)
    exact .inr ⟨_, _, hne, h⟩

namespace Deduplicator

/-- In every run a finding is held back only for an earlier one with the same six fields
that was let through within the window, unless the hash function collides. -/
theorem suppressed_by_same (cr : Crates) (window start : Nat) {calls : List Call}
    (hclock : ClockFrom start calls) {k : Nat} {call : Call} (hk : calls[k]? = some call)
    (hno : ((new window).answers cr calls)[k]? = some false) :
    ∃ (j : Nat) (earlier : Call), j < k ∧ calls[j]? = some earlier ∧
      ((new window).answers cr calls)[j]? = some true ∧ call.now - earlier.now < window ∧
        (SameAlert earlier.finding call.finding ∨ Collision cr) := by
  have hiff := answers_iff cr (new_remembers window start) hclock hk
  rw [hno] at hiff
  by_contra hnone
  have hyes : some false = some true := hiff.mpr ⟨not_recent_nil _ _, by
    intro j earlier hj hearlier hyes hkey hlt
    exact hnone ⟨j, earlier, hj, hearlier, hyes, hlt, collision_of_dedupKey_eq hkey⟩⟩
  cases hyes

end Deduplicator

end PgSense
