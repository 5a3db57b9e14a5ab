import PgSense.Commands.Supervision
import PgSense.Library.Hashing
import PgSense.TextBytes

/-! The 64-bit id of a database connection, under which its replication slot is kept. -/

namespace PgSense
open Library
set_option autoImplicit false

namespace DatabaseConfig

def fnvOffset : UInt64 := 14695981039346656037

def fnvPrime : UInt64 := 1099511628211

/-- One byte of the loop; `wrapping_mul` is the product of `UInt64`. -/
def fnvStep (hash : UInt64) (byte : UInt8) : UInt64 := (hash ^^^ byte.toUInt64) * fnvPrime

/-- FNV-1a over the bytes of `database_id`. -/
def pipelineId (config : DatabaseConfig) : UInt64 :=
  (utf8 config.databaseId).foldl fnvStep fnvOffset

/-- The multiplier is odd, so it can be divided out modulo 2^64. -/
theorem mul_fnvPrime_injective : Function.Injective fun hash : UInt64 => hash * fnvPrime := by
  have hinverse : fnvPrime * 0xce965057aff6957b = 1 := by decide
  intro a b h
  have hscaled : a * fnvPrime * 0xce965057aff6957b = b * fnvPrime * 0xce965057aff6957b :=
    congrArg (· * 0xce965057aff6957b) h
  rwa [UInt64.mul_assoc, UInt64.mul_assoc, hinverse, UInt64.mul_one, UInt64.mul_one] at hscaled

theorem fnvStep_injective_hash (byte : UInt8) :
    Function.Injective fun hash => fnvStep hash byte := by
  intro a b h
  have hxor : a ^^^ byte.toUInt64 = b ^^^ byte.toUInt64 := mul_fnvPrime_injective h
  exact (UInt64.xor_left_inj byte.toUInt64).mp hxor

theorem fnvStep_injective_byte (hash : UInt64) : Function.Injective (fnvStep hash) := by
  intro x y h
  have hxor : hash ^^^ x.toUInt64 = hash ^^^ y.toUInt64 := mul_fnvPrime_injective h
  exact UInt8.toUInt64_inj.mp ((UInt64.xor_right_inj hash).mp hxor)

/-- Databases whose ids differ in one byte have different slots, however long the ids are
and wherever the byte stands. -/
theorem pipelineId_ne {db1 db2 : DatabaseConfig}
    (hlen : (utf8 db1.databaseId).length = (utf8 db2.databaseId).length)
    (hone : ∃! i : Nat, (utf8 db1.databaseId)[i]? ≠ (utf8 db2.databaseId)[i]?) :
    db1.pipelineId ≠ db2.pipelineId := by
  obtain ⟨pre, a, b, post, hab, hid1, hid2⟩ := exists_split_of_existsUnique hlen hone
  rw [pipelineId, pipelineId, hid1, hid2]
  exact foldl_ne fnvStep_injective_hash fnvStep_injective_byte hab fnvOffset pre post

def sibling (dbname : String) : DatabaseConfig :=
  ⟨"localhost", 5432, dbname, "postgres", "pgsense", none⟩

theorem pipelineId_ne_siblings :
    (utf8 (sibling "db1").databaseId).length = (utf8 (sibling "db2").databaseId).length ∧
      (sibling "db1").pipelineId ≠ (sibling "db2").pipelineId := by
  -- the bytes of `localhost/db`
  let pre : List UInt8 := [108, 111, 99, 97, 108, 104, 111, 115, 116, 47, 100, 98]
  have hid1 : utf8 (sibling "db1").databaseId = pre ++ 49 :: [] := by decide
  have hid2 : utf8 (sibling "db2").databaseId = pre ++ 50 :: [] := by decide
  have hlen : (utf8 (sibling "db1").databaseId).length =
      (utf8 (sibling "db2").databaseId).length := by
    rw [hid1, hid2]
    rfl
  refine ⟨hlen, pipelineId_ne hlen ?_⟩
  rw [hid1, hid2]
  exact existsUnique_difference (by decide) pre []

end DatabaseConfig

end PgSense
