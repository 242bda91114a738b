/-
**Code images.**

A code image is a string of bytes that holds instruction words, lowest byte first.  A word is read
at any offset, and bytes behind the end read as zero.  Writers replace a window of the image and
leave its length alone.

Main definitions:

* `CodeImage.encode`, `CodeImage.wordsFrom` — words as bytes, and the words read from an offset;
* `CodeImage.wordAt` — the word at an offset;
* `CodeImage.patch` — the image with bytes written at an offset.

Main results:

* `CodeImage.wordAt_encode`, `CodeImage.wordsFrom_encode` — encoded words are read back;
* `CodeImage.patch_patch` — adjacent patches are one patch;
* `CodeImage.getElem?_patch_of_lt`, `CodeImage.getElem?_patch_of_le` — a patch changes its window
  only.
-/

import Mathlib.Data.BitVec

set_option relaxedAutoImplicit false
set_option autoImplicit false

namespace CodeImage

/-- A string of bytes. -/
abbrev Bytes := List (BitVec 8)

/-- An instruction word. -/
abbrev Word := BitVec 32

/-! ### Words as bytes -/

/-- The four bytes of a word, lowest first. -/
def bytesOfWord (w : Word) : Bytes :=
  [w.extractLsb' 0 8, w.extractLsb' 8 8, w.extractLsb' 16 8, w.extractLsb' 24 8]

/-- The bytes of several words. -/
def encode (words : List Word) : Bytes := words.flatMap bytesOfWord

/-- The word at an offset. -/
def wordAt (image : Bytes) (i : ℕ) : Word :=
  image.getD (i + 3) 0 ++ image.getD (i + 2) 0 ++ image.getD (i + 1) 0 ++ image.getD i 0

/-- The `n` words from an offset on. -/
def wordsFrom (image : Bytes) (i : ℕ) : ℕ → List Word
  | 0 => []
  | n + 1 => wordAt image i :: wordsFrom image (i + 4) n

@[simp] theorem length_bytesOfWord (w : Word) : (bytesOfWord w).length = 4 := rfl

@[simp] theorem encode_nil : encode [] = [] := rfl

@[simp] theorem encode_cons (w : Word) (words : List Word) :
    encode (w :: words) = bytesOfWord w ++ encode words := rfl

@[simp] theorem encode_append (words words' : List Word) :
    encode (words ++ words') = encode words ++ encode words' := List.flatMap_append

@[simp] theorem length_encode (words : List Word) : (encode words).length = 4 * words.length := by
  induction words with
  | nil => rfl
  | cons w words ih =>
      rw [encode_cons, List.length_append, length_bytesOfWord, ih, List.length_cons]
      omega

@[simp] theorem length_wordsFrom (image : Bytes) (i n : ℕ) : (wordsFrom image i n).length = n := by
  induction n generalizing i with
  | zero => rfl
  | succ n ih => rw [wordsFrom, List.length_cons, ih]

theorem wordsFrom_add (image : Bytes) (i m n : ℕ) :
    wordsFrom image i (m + n) = wordsFrom image i m ++ wordsFrom image (i + 4 * m) n := by
  induction m generalizing i with
  | zero => rw [Nat.zero_add]; rfl
  | succ m ih =>
      rw [Nat.add_right_comm, wordsFrom, ih, wordsFrom, List.cons_append, Nat.mul_add_one,
        Nat.add_comm (4 * m), Nat.add_assoc]

/-- A word is put together from its bytes. -/
theorem wordAt_bytesOfWord (w : Word) (rest : Bytes) : wordAt (bytesOfWord w ++ rest) 0 = w := by
  simp only [wordAt, bytesOfWord, List.cons_append, List.getD_cons_succ, List.getD_cons_zero]
  ext i hi
  simp
  grind

/-! ### Reading -/

theorem getD_append_add (before image : Bytes) (i k : ℕ) (h : before.length = i) :
    (before ++ image).getD (i + k) 0 = image.getD k 0 := by
  rw [List.getD_eq_getElem?_getD, List.getD_eq_getElem?_getD, List.getElem?_append_right (by omega)]
  congr 2
  omega

/-- What lies in front of an image moves its words. -/
theorem wordAt_append_add (before image : Bytes) {i : ℕ} (k : ℕ) (h : before.length = i) :
    wordAt (before ++ image) (i + k) = wordAt image k := by
  simp only [wordAt, Nat.add_assoc, getD_append_add before image i _ h]

theorem wordAt_append (before image : Bytes) {i : ℕ} (h : before.length = i) :
    wordAt (before ++ image) i = wordAt image 0 := wordAt_append_add before image 0 h

/-- What lies behind a word does not matter to it. -/
theorem wordAt_append_left (image after : Bytes) {i : ℕ} (h : i + 4 ≤ image.length) :
    wordAt (image ++ after) i = wordAt image i := by
  have hbyte : ∀ k, k < image.length → (image ++ after).getD k 0 = image.getD k 0 := by
    intro k hk
    rw [List.getD_eq_getElem?_getD, List.getD_eq_getElem?_getD, List.getElem?_append_left hk]
  rw [wordAt, hbyte _ (by omega), hbyte _ (by omega), hbyte _ (by omega), hbyte _ (by omega),
    wordAt]

/-- **A word of an encoded list is read back.** -/
theorem wordAt_encode (words : List Word) (after : Bytes) {k : ℕ} (h : k < words.length) :
    wordAt (encode words ++ after) (4 * k) = words[k] := by
  induction words generalizing k with
  | nil => cases h
  | cons w words ih =>
      rw [encode_cons, List.append_assoc]
      cases k with
      | zero => exact wordAt_bytesOfWord w _
      | succ k =>
          rw [Nat.mul_add_one, Nat.add_comm, wordAt_append_add _ _ _ (length_bytesOfWord w),
            ih (Nat.lt_of_succ_lt_succ h), List.getElem_cons_succ]

/-- Encoded words are read back, wherever they lie. -/
theorem wordAt_encode_append (before after : Bytes) (words : List Word) {i k : ℕ}
    (hi : before.length = i) (h : k < words.length) :
    wordAt (before ++ encode words ++ after) (i + 4 * k) = words[k] := by
  rw [List.append_assoc, wordAt_append_add _ _ _ hi, wordAt_encode words after h]

/-- **Encoded words are read back together.** -/
theorem wordsFrom_encode (before after : Bytes) (words : List Word) {i : ℕ}
    (h : before.length = i) :
    wordsFrom (before ++ encode words ++ after) i words.length = words := by
  induction words generalizing before i with
  | nil => rfl
  | cons w words ih =>
      rw [List.length_cons, wordsFrom, encode_cons, List.append_assoc, List.append_assoc,
        wordAt_append _ _ h, wordAt_bytesOfWord]
      have hfront : (before ++ bytesOfWord w).length = i + 4 := by
        rw [List.length_append, h, length_bytesOfWord]
      have hrest := ih (before ++ bytesOfWord w) hfront
      rw [List.append_assoc, List.append_assoc] at hrest
      rw [hrest]

/-! ### Writing -/

/-- The image with bytes written at an offset. -/
def patch (image : Bytes) (i : ℕ) (bytes : Bytes) : Bytes :=
  image.take i ++ bytes ++ image.drop (i + bytes.length)

theorem length_patch {image bytes : Bytes} {i : ℕ} (h : i + bytes.length ≤ image.length) :
    (patch image i bytes).length = image.length := by
  simp only [patch, List.length_append, List.length_take, List.length_drop]
  omega

@[simp] theorem patch_nil (image : Bytes) (i : ℕ) : patch image i [] = image := by
  rw [patch, List.append_nil, List.length_nil, Nat.add_zero, List.take_append_drop]

theorem take_patch {image bytes : Bytes} {i : ℕ} (h : i ≤ image.length) :
    (patch image i bytes).take i = image.take i := by
  rw [patch, List.append_assoc, List.take_append_of_le_length (by rw [List.length_take]; omega),
    List.take_take, Nat.min_self]

theorem drop_patch {image bytes : Bytes} {i : ℕ} (h : i ≤ image.length) :
    (patch image i bytes).drop (i + bytes.length) = image.drop (i + bytes.length) := by
  rw [patch, List.drop_left']
  rw [List.length_append, List.length_take, Nat.min_eq_left h]

/-- **Adjacent patches are one patch.** -/
theorem patch_patch {image bytes bytes' : Bytes} {i : ℕ} (h : i ≤ image.length) :
    patch (patch image i bytes) (i + bytes.length) bytes' = patch image i (bytes ++ bytes') := by
  have hhead : (image.take i).length = i := List.length_take_of_le h
  have hfront : (image.take i ++ bytes).length = i + bytes.length := by
    rw [List.length_append, hhead]
  have htake : (patch image i bytes).take (i + bytes.length) = image.take i ++ bytes := by
    rw [patch, List.take_left' hfront]
  have hdrop : (patch image i bytes).drop (i + bytes.length + bytes'.length) =
      image.drop (i + (bytes ++ bytes').length) := by
    rw [← List.drop_drop, drop_patch h, List.drop_drop, List.length_append, Nat.add_assoc]
  rw [patch, htake, hdrop, patch, List.append_assoc (image.take i)]

/-- **A patch changes nothing in front of its window.** -/
theorem getElem?_patch_of_lt {image bytes : Bytes} {i k : ℕ} (hi : i ≤ image.length) (h : k < i) :
    (patch image i bytes)[k]? = image[k]? := by
  rw [← List.getElem?_take_of_lt h, take_patch hi, List.getElem?_take_of_lt h]

/-- **A patch changes nothing behind its window.** -/
theorem getElem?_patch_of_le {image bytes : Bytes} {i k : ℕ} (hi : i ≤ image.length)
    (h : i + bytes.length ≤ k) : (patch image i bytes)[k]? = image[k]? := by
  obtain ⟨j, rfl⟩ := Nat.exists_eq_add_of_le h
  rw [← List.getElem?_drop, drop_patch hi, List.getElem?_drop]

/-- **Written words are read back**, whatever is written behind them. -/
theorem wordsFrom_patch_append {image : Bytes} {i : ℕ} (hi : i ≤ image.length)
    (words words' : List Word) :
    wordsFrom (patch image i (encode (words ++ words'))) i words.length = words := by
  rw [patch, encode_append, ← List.append_assoc (image.take i), List.append_assoc]
  exact wordsFrom_encode _ _ words (List.length_take_of_le hi)

theorem wordAt_patch {image : Bytes} {i k : ℕ} (hi : i ≤ image.length) {words : List Word}
    (hk : k < words.length) : wordAt (patch image i (encode words)) (i + 4 * k) = words[k] :=
  wordAt_encode_append _ _ words (List.length_take_of_le hi) hk

/-- A word behind the window is kept. -/
theorem wordAt_patch_of_le {image bytes : Bytes} {i k : ℕ} (hi : i ≤ image.length)
    (h : i + bytes.length ≤ k) : wordAt (patch image i bytes) k = wordAt image k := by
  have hbyte : ∀ j, i + bytes.length ≤ j → (patch image i bytes).getD j 0 = image.getD j 0 := by
    intro j hj
    rw [List.getD_eq_getElem?_getD, List.getD_eq_getElem?_getD, getElem?_patch_of_le hi hj]
  rw [wordAt, hbyte k h, hbyte _ (by omega), hbyte _ (by omega), hbyte _ (by omega), wordAt]

end CodeImage
