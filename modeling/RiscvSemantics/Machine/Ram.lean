namespace RiscvSemantics.Ram

/-- So many zero bytes, built by doubling. -/
def block (size : Nat) : ByteArray :=
  if size = 0 then ByteArray.empty
  else
    let half := block (size / 2)
    if size % 2 = 0 then half ++ half else (half ++ half).push 0
termination_by size

/-- Adds so many copies of some bytes behind others. -/
def appendCopies (copied : ByteArray) : (count : Nat) → ByteArray → ByteArray
  | 0, bytes => bytes
  | count + 1, bytes => appendCopies copied count (bytes ++ copied)

/-- So many zero bytes. They are laid down block by block in one place, so a large
    memory is not copied while it grows. -/
def zeros (size : Nat) : ByteArray :=
  appendCopies (block 65536) (size / 65536) (ByteArray.emptyWithCapacity size) ++
    block (size % 65536)

theorem data_block (size : Nat) : (block size).data = Array.replicate size 0 := by
  induction size using Nat.strongRecOn with
  | _ size ih =>
    rw [block]
    split
    · subst size
      rfl
    · have hhalf := ih (size / 2) (by omega)
      dsimp only
      split
      · rw [ByteArray.data_append, hhalf, Array.replicate_append_replicate]
        congr 1
        omega
      · rw [ByteArray.data_push, ByteArray.data_append, hhalf, Array.replicate_append_replicate,
          ← Array.replicate_succ]
        congr 1
        omega

theorem data_appendCopies {size : Nat} (count : Nat) {written : Nat} {bytes : ByteArray}
    (hbytes : bytes.data = Array.replicate written 0) :
    (appendCopies (block size) count bytes).data = Array.replicate (written + count * size) 0 := by
  induction count generalizing written bytes with
  | zero => simpa [appendCopies] using hbytes
  | succ count ih =>
    have hnext : (bytes ++ block size).data = Array.replicate (written + size) 0 := by
      rw [ByteArray.data_append, hbytes, data_block, Array.replicate_append_replicate]
    rw [appendCopies, ih hnext]
    congr 1
    rw [Nat.succ_mul, Nat.add_assoc, Nat.add_comm size]

theorem data_zeros (size : Nat) : (zeros size).data = Array.replicate size 0 := by
  have hempty : (ByteArray.emptyWithCapacity size).data = Array.replicate 0 0 := rfl
  rw [zeros, ByteArray.data_append, data_appendCopies (size / 65536) hempty, data_block,
    Array.replicate_append_replicate]
  congr 1
  omega

@[simp] theorem size_zeros (size : Nat) : (zeros size).size = size := by
  simp [← ByteArray.size_data, data_zeros]

end RiscvSemantics.Ram
