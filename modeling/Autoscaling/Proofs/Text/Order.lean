import Autoscaling.Dict

namespace Autoscaling.Text

def bytes (s : String) : List UInt8 := s.toByteArray.data.toList

theorem bytes_eq_flatMap (s : String) : bytes s = s.toList.flatMap String.utf8EncodeChar := by
  rw [bytes, ← String.utf8Encode_toList, List.utf8Encode, List.toList_data_toByteArray]

theorem ofNat_cons_lt {a b : Nat} (ha : a < 256) (hb : b < 256) {l k : List UInt8} :
    UInt8.ofNat a :: l < UInt8.ofNat b :: k ↔ a < b ∨ a = b ∧ l < k := by
  rw [List.cons_lt_cons_iff, UInt8.lt_iff_toNat_lt, ← UInt8.toNat_inj, UInt8.toNat_ofNat_of_lt' ha,
    UInt8.toNat_ofNat_of_lt' hb]

theorem utf8EncodeChar_lt {c d : Char} (lt : c < d) (l k : List UInt8) :
    String.utf8EncodeChar c ++ l < String.utf8EncodeChar d ++ k := by
  have lt : c.val.toNat < d.val.toNat := lt
  have most : d.val.toNat < 0x110000 := by
    rcases d.valid with h | h <;> omega
  unfold String.utf8EncodeChar
  dsimp only
  generalize c.val.toNat = v, d.val.toNat = w at lt most
  -- More bytes begin with a greater one; as many bear the digits of the characters to base 64.
  have second (x : Nat) : x / 4096 = x / 64 / 64 := by omega
  have third (x : Nat) : x / 262144 = x / 64 / 64 / 64 := by omega
  repeat' split
  all_goals
    simp (disch := omega) only [List.cons_append, List.nil_append, ofNat_cons_lt, second, third]
    omega

theorem bytes_lt {s t : String} (lt : s < t) : bytes s < bytes t := by
  have lt : s.toList < t.toList := lt
  rw [bytes_eq_flatMap, bytes_eq_flatMap]
  generalize s.toList = l, t.toList = k at lt
  induction lt with
  | @nil c k =>
    obtain ⟨b, rest, eq⟩ := List.exists_cons_of_ne_nil (String.utf8EncodeChar_ne_nil (c := c))
    rw [List.flatMap_cons, eq]
    exact List.nil_lt_cons ..
  | cons _ ih =>
    rw [List.flatMap_cons, List.flatMap_cons]
    exact List.append_left_lt ih
  | rel lt =>
    rw [List.flatMap_cons, List.flatMap_cons]
    exact utf8EncodeChar_lt lt _ _

end Autoscaling.Text

namespace Autoscaling.Dict

theorem ascending_bytes (d : Dict α) :
    d.entries.Pairwise fun e e' => Text.bytes e.1 < Text.bytes e'.1 :=
  d.ascending.imp Text.bytes_lt

end Autoscaling.Dict
