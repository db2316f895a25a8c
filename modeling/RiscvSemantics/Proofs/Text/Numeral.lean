import Mathlib.Algebra.Group.Nat.Defs
import RiscvSemantics.Text.Numeral

namespace RiscvSemantics.Text

/-- A way to write digits from which their values can be told in a base. -/
def Spells (base : Nat) (spell : Char → Char) : Prop :=
  ∀ d < base, digitValue? base (spell (Nat.digitChar d)) = some d

theorem spells_decimal : Spells 10 id := by
  unfold Spells
  decide

theorem spells_hexLower : Spells 16 id := by
  unfold Spells
  decide

theorem spells_hexUpper : Spells 16 Char.toUpper := by
  unfold Spells
  decide

variable {base limit places n : Nat}

theorem readDigits_append (acc : Nat) (front back : List Char) :
    readDigits base limit acc (front ++ back) =
      (readDigits base limit acc front).bind fun n => readDigits base limit n back := by
  induction front generalizing acc with
  | nil => rfl
  | cons c rest ih =>
    rw [List.cons_append, readDigits, readDigits]
    cases digitValue? base c with
    | none => rfl
    | some d =>
      dsimp only
      split
      case isTrue => exact ih _
      case isFalse => rfl

theorem readDigits_singleton {acc d : Nat} {c : Char} (hdigit : digitValue? base c = some d)
    (hlimit : acc * base + d < limit) : readDigits base limit acc [c] = .ok (acc * base + d) := by
  rw [readDigits, hdigit]
  exact if_pos hlimit

/-- No number on the way is greater than the last one. -/
theorem readDigits_toDigits {spell : Char → Char} (hspell : Spells base spell) (hbase : 1 < base)
    (hn : n < limit) : readDigits base limit 0 ((Nat.toDigits base n).map spell) = .ok n := by
  induction n using Nat.strongRecOn with
  | ind n ih =>
    rw [Nat.toDigits_eq_if hbase]
    split
    case isTrue hlt =>
      have hfront : 0 * base + n = n := by rw [Nat.zero_mul, Nat.zero_add]
      have hsmall : 0 * base + n < limit := by rwa [hfront]
      have hread := readDigits_singleton (hspell n hlt) hsmall
      rwa [hfront] at hread
    case isFalse hge =>
      have hdiv : n / base < n := Nat.div_lt_self (by omega) hbase
      have hback : n / base * base + n % base = n := Nat.div_add_mod' n base
      have hsmall : n / base * base + n % base < limit := by rwa [hback]
      have hread := readDigits_singleton (hspell (n % base) (Nat.mod_lt n (by omega))) hsmall
      rw [List.map_append, readDigits_append, ih (n / base) hdiv (Nat.lt_trans hdiv hn)]
      exact hread.trans (congrArg Except.ok hback)

theorem readDigits_zeros {zero : Char} (hzero : digitValue? base zero = some 0) (hlimit : 0 < limit)
    (count : Nat) (cs : List Char) :
    readDigits base limit 0 (List.replicate count zero ++ cs) = readDigits base limit 0 cs := by
  induction count with
  | zero => rfl
  | succ count ih =>
    rw [List.replicate_succ, List.cons_append, readDigits, hzero, Nat.zero_mul]
    exact (if_pos hlimit).trans ih

theorem length_digits (hbase : 1 < base) (hplaces : 0 < places) (hn : n < base ^ places) :
    (digits base places n).length = places := by
  have hwritten := (Nat.length_toDigits_le_iff hbase hplaces).mpr hn
  rw [digits, List.length_append, List.length_replicate]
  omega

/-- There is a digit in any case. -/
theorem digits_one (base n : Nat) : digits base 1 n = Nat.toDigits base n := by
  have hpositive : 1 ≤ (Nat.toDigits base n).length := Nat.length_toDigits_pos
  rw [digits, Nat.sub_eq_zero_of_le hpositive, List.replicate_zero, List.nil_append]

/-- The last digit split off. -/
theorem digits_succ (hbase : 1 < base) (hplaces : 0 < places) :
    digits base (places + 1) n = digits base places (n / base) ++ [Nat.digitChar (n % base)] := by
  rw [digits, digits, Nat.toDigits_eq_if (n := n) hbase]
  split
  case isTrue hlt =>
    -- one of the zeros in front is the digit of the number that is left
    obtain ⟨count, rfl⟩ := Nat.exists_eq_add_of_lt hplaces
    rw [Nat.div_eq_of_lt hlt, Nat.mod_eq_of_lt hlt, Nat.toDigits_zero, List.length_singleton,
      List.length_singleton, Nat.zero_add, Nat.add_sub_cancel, Nat.add_sub_cancel, List.replicate_succ']
  case isFalse hge =>
    rw [List.length_append, List.length_singleton, Nat.add_sub_add_right, List.append_assoc]

/-- A number that is put in front of all places of another is written in front of its digits. -/
theorem toDigits_mul_pow_add {high low : Nat} (hbase : 1 < base) (hhigh : 0 < high) (hplaces : 0 < places)
    (hlow : low < base ^ places) :
    Nat.toDigits base (high * base ^ places + low) = Nat.toDigits base high ++ digits base places low := by
  obtain ⟨count, rfl⟩ : ∃ count, places = count + 1 := Nat.exists_eq_succ_of_ne_zero (Nat.ne_of_gt hplaces)
  clear hplaces
  induction count generalizing low with
  | zero =>
    rw [Nat.zero_add, Nat.pow_one] at hlow ⊢
    rw [digits_one, Nat.toDigits_append_toDigits hbase hhigh hlow, Nat.mul_comm]
  | succ count ih =>
    have hfront : low / base < base ^ (count + 1) := by
      rw [Nat.div_lt_iff_lt_mul (by omega), ← Nat.pow_succ]
      exact hlow
    have hsplit :=
      calc
        high * base ^ (count + 1 + 1) + low
        _ = high * base ^ (count + 1) * base + (base * (low / base) + low % base) := by
          rw [Nat.div_add_mod, Nat.pow_succ, Nat.mul_assoc]
        _ = base * (high * base ^ (count + 1) + low / base) + low % base := by
          rw [Nat.mul_add, Nat.mul_comm _ base, Nat.add_assoc]
    have hpositive : 0 < high * base ^ (count + 1) + low / base :=
      Nat.add_pos_left (Nat.mul_pos hhigh (Nat.pow_pos (by omega))) _
    have hlast : low % base < base := Nat.mod_lt low (by omega)
    rw [hsplit, ← Nat.toDigits_append_toDigits hbase hpositive hlast, ih hfront,
      digits_succ hbase (Nat.succ_pos count), Nat.toDigits_of_lt_base hlast, List.append_assoc]

theorem exists_of_mem_toDigits (hbase : 1 < base) {c : Char} (hc : c ∈ Nat.toDigits base n) :
    ∃ d < base, c = Nat.digitChar d := by
  induction n using Nat.strongRecOn with
  | ind n ih =>
    rw [Nat.toDigits_eq_if hbase] at hc
    split at hc
    case isTrue hlt => exact ⟨n, hlt, List.mem_singleton.mp hc⟩
    case isFalse hge =>
      obtain hfront | hlast := List.mem_append.mp hc
      · exact ih (n / base) (Nat.div_lt_self (by omega) hbase) hfront
      · exact ⟨n % base, Nat.mod_lt n (by omega), List.mem_singleton.mp hlast⟩

theorem exists_of_mem_digits (hbase : 1 < base) {c : Char} (hc : c ∈ digits base places n) :
    ∃ d < base, c = Nat.digitChar d := by
  obtain hzero | hwritten := List.mem_append.mp hc
  · exact ⟨0, by omega, (List.mem_replicate.mp hzero).2⟩
  · exact exists_of_mem_toDigits hbase hwritten

theorem digits_ne_nil : digits base places n ≠ [] :=
  List.append_ne_nil_of_right_ne_nil _ Nat.toDigits_ne_nil

/-- A sign can be left out. -/
theorem readNumeral_of_unsigned {cs : List Char} (hne : cs ≠ []) (hsign : '+' ∉ cs) :
    readNumeral base limit cs = readDigits base limit 0 cs := by
  rw [readNumeral.eq_def]
  split
  · exact absurd rfl hne
  · exact absurd List.mem_cons_self hsign
  · exact absurd List.mem_cons_self hsign
  · rfl

/-- A number that is written out, with or without zeros in front, is read again. -/
theorem readNumeral_digits {spell : Char → Char} (hspell : Spells base spell) (hbase : 1 < base)
    (hn : n < limit) : readNumeral base limit ((digits base places n).map spell) = .ok n := by
  have hne : (digits base places n).map spell ≠ [] := by
    rw [Ne, List.map_eq_nil_iff]
    exact digits_ne_nil
  have hsign : '+' ∉ (digits base places n).map spell := by
    intro hmem
    obtain ⟨c, hc, hplus⟩ := List.mem_map.mp hmem
    obtain ⟨d, hd, rfl⟩ := exists_of_mem_digits hbase hc
    have hvalue := hspell d hd
    rw [hplus] at hvalue
    cases hvalue
  have hzero : digitValue? base (spell '0') = some 0 := hspell 0 (by omega)
  rw [readNumeral_of_unsigned hne hsign, digits, List.map_append, List.map_replicate,
    readDigits_zeros hzero (by omega), readDigits_toDigits hspell hbase hn]

end RiscvSemantics.Text
