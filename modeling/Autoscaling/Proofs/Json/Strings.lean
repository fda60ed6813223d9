import Autoscaling.Json.Reader
import Autoscaling.Json.Writer

namespace Autoscaling.Json.Reader

variable {code rest seen s : List Char} {n fuel : Nat}

theorem unit_append (read : unit code = some (n, [])) (rest : List Char) :
    unit (code ++ rest) = some (n, rest) := by
  unfold unit at read
  split at read
  · obtain ⟨a, first, read⟩ := Option.bind_eq_some_iff.1 read
    obtain ⟨b, second, read⟩ := Option.bind_eq_some_iff.1 read
    obtain ⟨c, third, read⟩ := Option.bind_eq_some_iff.1 read
    obtain ⟨d, fourth, read⟩ := Option.bind_eq_some_iff.1 read
    cases read
    simp [unit, first, second, third, fourth]
  · cases read

def controlCode (n : Nat) : List Char :=
  List.replicate (4 - (Nat.toDigits 16 n).length) '0' ++ Nat.toDigits 16 n

theorem unit_controlCode : ∀ n < 0x20, unit (controlCode n) = some (n, []) := by decide

theorem codePoint_controlCode (control : n < 0x20) (rest : List Char) :
    codePoint (controlCode n ++ rest) = some (Char.ofNat n, rest) := by
  have read := unit_append (unit_controlCode n control) rest
  have low : ¬ 0xD800 ≤ n := by omega
  have low' : ¬ 0xDC00 ≤ n := by omega
  simp [codePoint, read, low, low']

theorem stringBody_plain {c : Char} (quote : c ≠ '"') (slash : c ≠ '\\') (visible : ¬ c.toNat < 0x20)
    (fuel : Nat) (seen rest : List Char) :
    stringBody (fuel + 1) seen (c :: rest) = stringBody fuel (c :: seen) rest := by
  rw [stringBody, if_neg visible]
  · exact quote
  · exact fun _ eq => absurd eq slash
  · exact fun _ _ eq => absurd eq slash

theorem stringBody_control {c : Char} (control : c.toNat < 0x20) (fuel : Nat)
    (seen rest : List Char) :
    stringBody (fuel + 1) seen ('\\' :: 'u' :: (controlCode c.toNat ++ rest)) =
      stringBody fuel (c :: seen) rest := by
  rw [stringBody, codePoint_controlCode control]
  simp

theorem stringBody_escape (c : Char) (fuel : Nat) (seen rest : List Char) :
    stringBody (fuel + 1) seen (escape c ++ rest) = stringBody fuel (c :: seen) rest := by
  by_cases quote : c = '"'
  · subst quote
    rfl
  by_cases slash : c = '\\'
  · subst slash
    rfl
  by_cases line : c = '\n'
  · subst line
    rfl
  by_cases carriage : c = '\r'
  · subst carriage
    rfl
  by_cases tab : c = '\t'
  · subst tab
    rfl
  rw [escape, if_neg quote, if_neg slash, if_neg line, if_neg carriage, if_neg tab]
  dsimp only
  split
  · next control => exact stringBody_control control fuel seen rest
  · next visible => exact stringBody_plain quote slash visible fuel seen rest

theorem escape_ne_nil (c : Char) : escape c ≠ [] := by
  unfold escape
  repeat' split
  all_goals exact List.cons_ne_nil _ _

theorem stringBody_flatMap (enough : (s.flatMap escape).length < fuel) (seen rest : List Char) :
    stringBody fuel seen (s.flatMap escape ++ '"' :: rest) =
      some (String.ofList (seen.reverse ++ s), rest) := by
  induction s generalizing fuel seen with
  | nil =>
    obtain ⟨fuel, rfl⟩ := Nat.exists_eq_succ_of_ne_zero (Nat.ne_of_gt enough)
    rw [List.append_nil]
    rfl
  | cons c s ih =>
    obtain ⟨fuel, rfl⟩ := Nat.exists_eq_succ_of_ne_zero (Nat.ne_of_gt (Nat.zero_lt_of_lt enough))
    rw [List.flatMap_cons, List.length_append] at enough
    have := List.length_pos_iff.2 (escape_ne_nil c)
    rw [List.flatMap_cons, List.append_assoc, stringBody_escape, ih (by omega), List.reverse_cons,
      List.append_assoc]
    rfl

end Autoscaling.Json.Reader
