import RiscvSemantics.Proofs.Bits.Integer
import RiscvSemantics.Proofs.Hart.Number
import RiscvSemantics.Proofs.Image.Stores

namespace RiscvSemantics

variable {x : Xlen}

namespace Hart

open Image Interpretation

/-- Bytes are stored one behind the other. Addresses wrap around, and what falls beyond the memory
    is lost and raises a store fault. -/
theorem exists_of_storeBytes (bytes : List (BitVec 8)) (address : Bits) (hart : Hart x) :
    ∃ next after, (storeBytes bytes address : Action (Hart x) Bits) hart = (.ok next, after) ∧
      after.view = (hart.view.setBytes (fun k => (address.toNat + k) % 2 ^ address.width)
        (fun k => UInt8.ofNat (bytes.getD k 0#8).toNat) bytes.length).raiseIf
          (∃ k < bytes.length, hart.view.ram.size ≤ (address.toNat + k) % 2 ^ address.width) .storeFault := by
  induction bytes generalizing address hart with
  | nil => exact ⟨address, hart, rfl, (View.raiseIf_of_neg _ _ (by simp)).symm⟩
  | cons byte rest ih =>
    have hset : (Machine.setMemory address (Bits.ofByte byte) : Action (Hart x) Unit) hart =
        (.ok (), hart.store address.toNat (UInt8.ofNat byte.toNat)) := rfl
    obtain ⟨next, after, hstore, hview⟩ :=
      ih (address.advance 1) (hart.store address.toNat (UInt8.ofNat byte.toNat))
    -- The others count their addresses from the next one, also where that wraps around.
    have hfirst : (address.toNat + 0) % 2 ^ address.width = address.toNat :=
      Nat.mod_eq_of_lt address.value.isLt
    have hrest (k : Nat) : ((address.advance 1).toNat + k) % 2 ^ (address.advance 1).width =
        (address.toNat + (k + 1)) % 2 ^ address.width := by
      have hnext : (address.advance 1).toNat = (address.toNat + 1) % 2 ^ address.width :=
        BitVec.toNat_ofNat ..
      rw [hnext, Nat.add_comm k 1, ← Nat.add_assoc]
      exact Nat.mod_add_mod ..
    have hsize : (hart.store address.toNat (UInt8.ofNat byte.toNat)).view.ram.size = hart.view.ram.size := by
      rw [view_store]
      exact View.size_setByte ..
    refine ⟨next, after, (bind_of_ok hset _).trans hstore, ?_⟩
    simp only [hrest, hsize] at hview
    rw [hview, view_store, View.raiseIf_setBytes, List.length_cons, View.setBytes_succ, hfirst,
      View.raiseIf_raiseIf]
    refine View.raiseIf_congr _ _ ?_
    rw [Nat.exists_lt_succ_left, hfirst]

/-- So are the words of an image, from its base on. -/
theorem exists_of_storeWords (ws : List (BitVec 32)) (base : Nat) (hart : Hart x) :
    ∃ next after, (storeBytes (bytesOfWords ws) (Machine.word (Hart x) base) : Action (Hart x) Bits) hart =
        (.ok next, after) ∧
      after.view = (hart.view.setBytes (fun k => (base + k) % 2 ^ x.bits)
        (fun k => UInt8.ofNat ((bytesOfWords ws).getD k 0#8).toNat) (4 * ws.length)).raiseIf
          (∃ k < 4 * ws.length, hart.view.ram.size ≤ (base + k) % 2 ^ x.bits) .storeFault := by
  obtain ⟨next, after, hstore, hview⟩ :=
    hart.exists_of_storeBytes (bytesOfWords ws) (Machine.word (Hart x) base)
  have haddress (k : Nat) :
      ((Machine.word (Hart x) base).toNat + k) % 2 ^ (Machine.word (Hart x) base).width =
        (base + k) % 2 ^ x.bits := by
    have hbase : (Machine.word (Hart x) base).toNat = base % 2 ^ x.bits := BitVec.toNat_ofNat ..
    rw [hbase]
    exact Nat.mod_add_mod ..
  simp only [haddress, length_bytesOfWords] at hview
  exact ⟨next, after, hstore, hview⟩

end Hart

namespace Image

open Hart

/-- Words lie in the memory from a base on, and nothing else has changed. -/
structure Placed {width : Nat} (base : Nat) (ws : List (BitVec 32)) (before after : View width) : Prop where
  stored : after = before.setBytes (fun k => (base + k) % 2 ^ width)
    (fun k => UInt8.ofNat ((bytesOfWords ws).getD k 0#8).toNat) (4 * ws.length)
  inside : ∀ k < 4 * ws.length, (base + k) % 2 ^ width < before.ram.size

theorem exists_placed_of_load {base n : Nat} {file : ByteArray} {before after : Hart x}
    (hload : load base file before = (.ok n, after)) :
    ∃ ws, (words file : Except (Error Cause) _) = .ok ws ∧ n = 4 * ws.length ∧ after.trap = none ∧
      Placed base ws before.view after.view := by
  obtain ⟨ws, next, hws, hn, hstore, hpending⟩ := exists_of_load_ok hload
  obtain ⟨next', after', hstore', hview⟩ := before.exists_of_storeWords ws base
  rw [hstore] at hstore'
  cases hstore'
  have htrap : after.view.trap = none := hpending
  by_cases hbeyond : ∃ k < 4 * ws.length, before.view.ram.size ≤ (base + k) % 2 ^ x.bits
  · rw [hview, View.raiseIf_of_pos _ _ hbeyond] at htrap
    cases Option.or_eq_none_iff.mp htrap
    contradiction
  · rw [View.raiseIf_of_neg _ _ hbeyond] at hview
    refine ⟨ws, hws, hn, hpending, hview, fun k hk => ?_⟩
    exact Nat.not_le.mp fun hle => hbeyond ⟨k, hk, hle⟩

theorem distinct_of_le {base count modulus : Nat} (hfits : count ≤ modulus) {j k : Nat} (hjk : j < k)
    (hk : k < count) : (base + j) % modulus ≠ (base + k) % modulus := by
  intro heq
  have hzero := Nat.sub_mod_eq_zero_of_mod_eq heq.symm
  rw [Nat.add_sub_add_left, Nat.mod_eq_of_lt (by omega)] at hzero
  omega

/-- Where the words do not overlap, each lies at its place. -/
theorem Placed.holds {width base i : Nat} {ws : List (BitVec 32)} {before after : View width}
    (h : Placed base ws before after) (hfits : 4 * ws.length ≤ 2 ^ width) (hi : i < ws.length) :
    after.Holds (base + 4 * i) 4 ws[i].toNat := by
  obtain ⟨ram, hset, hsize⟩ := before.setBytes_eq (fun k => (base + k) % 2 ^ width)
    (fun k => UInt8.ofNat ((bytesOfWords ws).getD k 0#8).toNat) (4 * ws.length)
  refine ⟨fun k hk => ?_, fun k hk => ?_⟩
  · have hlt : 4 * i + k < 4 * ws.length := by omega
    have hinside := h.inside (4 * i + k) hlt
    rw [h.stored, hset, Nat.add_assoc]
    exact hsize.symm ▸ hinside
  · have hlt : 4 * i + k < 4 * ws.length := by omega
    rw [h.stored, Nat.add_assoc]
    have hbyte := before.byte_setBytes (fun k => (base + k) % 2 ^ width)
      (fun k => UInt8.ofNat ((bytesOfWords ws).getD k 0#8).toNat) (4 * ws.length)
      (fun j k hjk hk => distinct_of_le hfits hjk hk) hlt (h.inside (4 * i + k) hlt)
    rw [hbyte, getD_bytesOfWords hi hk, UInt8.toNat_ofNat', Bits.toNat_extractByte, Nat.mod_mod]

end Image

end RiscvSemantics
