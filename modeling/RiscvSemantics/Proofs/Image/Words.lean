import RiscvSemantics.Image.Load
import RiscvSemantics.Proofs.Machine.Interpretation

namespace RiscvSemantics.Image

variable {σ ε : Type}

def Repeat.words (copies : Repeat) : List (BitVec 32) :=
  List.replicate copies.count copies.word

/-- The words of lines behind the header, of which `number` is the first. -/
def wordsOf : (number : Nat) → List (List UInt8) → Except (Error ε) (List (BitVec 32))
  | _, [] => .ok []
  | number, line :: rest => do
    let text ← decodeLine line
    match ← parseLine number text with
    | none => wordsOf (number + 1) rest
    | some copies => do
      let more ← wordsOf (number + 1) rest
      pure (copies.words ++ more)

section WordsOf

variable {line : List UInt8} {rest : List (List UInt8)} {text : List Char} {number : Nat}

theorem wordsOf_blank (htext : (decodeLine line : Except (Error ε) _) = .ok text)
    (hparse : (parseLine number text : Except (Error ε) _) = .ok none) :
    (wordsOf number (line :: rest) : Except (Error ε) _) = wordsOf (number + 1) rest := by
  rw [wordsOf, htext]
  change (parseLine number text >>= _) = _
  rw [hparse]
  rfl

theorem wordsOf_copies {copies : Repeat} {ws : List (BitVec 32)}
    (htext : (decodeLine line : Except (Error ε) _) = .ok text)
    (hparse : (parseLine number text : Except (Error ε) _) = .ok (some copies))
    (hrest : (wordsOf (number + 1) rest : Except (Error ε) _) = .ok ws) :
    (wordsOf number (line :: rest) : Except (Error ε) _) = .ok (copies.words ++ ws) := by
  rw [wordsOf, htext]
  change (parseLine number text >>= _) = _
  rw [hparse]
  change (wordsOf (number + 1) rest >>= _) = _
  rw [hrest]
  rfl

end WordsOf

/-- The words of an image, in order. The first line is none of them, whatever it holds. -/
def words (file : ByteArray) : Except (Error ε) (List (BitVec 32)) :=
  wordsOf 2 (lines file.data.toList).tail

/-- The bytes of words, those of the first word first. -/
def bytesOfWords (ws : List (BitVec 32)) : List (BitVec 8) :=
  ws.flatMap bytesOf

theorem length_bytesOfWords (ws : List (BitVec 32)) : (bytesOfWords ws).length = 4 * ws.length := by
  induction ws with
  | nil => rfl
  | cons word rest ih =>
    have hcons : bytesOfWords (word :: rest) = bytesOf word ++ bytesOfWords rest := List.flatMap_cons
    rw [hcons, List.length_append, ih, List.length_cons]
    exact Nat.add_comm 4 _

/-- Byte `k` of word `i`. -/
theorem getD_bytesOfWords {ws : List (BitVec 32)} {i k : Nat} (hi : i < ws.length) (hk : k < 4) :
    (bytesOfWords ws).getD (4 * i + k) 0#8 = ws[i].extractLsb' (8 * k) 8 := by
  induction ws generalizing i with
  | nil => cases hi
  | cons word rest ih =>
    cases i with
    | zero =>
      obtain rfl | rfl | rfl | rfl : k = 0 ∨ k = 1 ∨ k = 2 ∨ k = 3 := by omega
      · rfl
      · rfl
      · rfl
      · rfl
    | succ i =>
      have hindex : 4 * (i + 1) + k = 4 * i + k + 4 := by omega
      rw [hindex]
      exact ih (Nat.lt_of_succ_lt_succ hi)

variable [Machine σ ε]

open Interpretation

theorem storeBytes_append (early late : List (BitVec 8)) (address : Bits) :
    (storeBytes (early ++ late) address : Action σ Bits) = storeBytes early address >>= storeBytes late := by
  induction early generalizing address with
  | nil => rw [List.nil_append, storeBytes, pure_bind]
  | cons byte rest ih => simp only [List.cons_append, storeBytes, ih, bind_assoc]

/-- Copies are stored like the row of their bytes. -/
theorem storeCopies_eq (bytes : List (BitVec 8)) (count : Nat) (address : Bits) :
    (storeCopies bytes count address : Action σ Bits) =
      storeBytes (List.replicate count bytes).flatten address := by
  induction count generalizing address with
  | zero => rfl
  | succ count ih => rw [storeCopies, List.replicate_succ, List.flatten_cons, storeBytes_append, funext ih]

theorem bytesOfWords_append (early late : List (BitVec 32)) :
    bytesOfWords (early ++ late) = bytesOfWords early ++ bytesOfWords late :=
  List.flatMap_append

theorem bytesOfWords_copies (copies : Repeat) :
    bytesOfWords copies.words = (List.replicate copies.count (bytesOf copies.word)).flatten := by
  rw [bytesOfWords, Repeat.words, List.flatMap_def, List.map_replicate]

end RiscvSemantics.Image
