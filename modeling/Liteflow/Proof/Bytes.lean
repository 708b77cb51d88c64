import Liteflow.Messages

/-!
# Fields and their bytes

Reading a field at its offset gives back the value that was written there, so a packed structure is
read back from its bytes.
-/

namespace Liteflow

@[simp]
theorem length_littleEndian (n : Nat) {w : Nat} (value : BitVec w) :
    (littleEndian n value).length = n := by
  simp [littleEndian]

theorem getElem?_littleEndian {n i : Nat} {w : Nat} (value : BitVec w) (hi : i < n) :
    (littleEndian n value)[i]? = some (BitVec.ofNat 8 (value.toNat / 256 ^ i)) := by
  simp [littleEndian, hi]

theorem readLittleEndian_eq_mod {bytes : Nat → Byte} (n : Nat) : ∀ (v start : Nat),
    (∀ i < n, bytes (start + i) = BitVec.ofNat 8 (v / 256 ^ i)) →
      readLittleEndian bytes start n = v % 256 ^ n := by
  induction n with
  | zero =>
      intro v start _
      simp [readLittleEndian, Nat.mod_one]
  | succ n ih =>
      intro v start hbytes
      have hfirst : (bytes start).toNat = v % 256 := by
        have hzero := hbytes 0 (Nat.succ_pos n)
        rw [Nat.add_zero, Nat.pow_zero, Nat.div_one] at hzero
        rw [hzero, BitVec.toNat_ofNat]
      have hrest : readLittleEndian bytes (start + 1) n = v / 256 % 256 ^ n := by
        apply ih
        intro i hi
        have hnext := hbytes (i + 1) (Nat.succ_lt_succ hi)
        rw [Nat.pow_succ', ← Nat.div_div_eq_div_mul] at hnext
        rwa [Nat.add_assoc, Nat.add_comm 1 i]
      rw [readLittleEndian, hfirst, hrest, Nat.pow_succ', Nat.mod_mul]

def StandsAt (buf : Nat → Byte) (k : Nat) (bytes : List Byte) : Prop :=
  ∀ i (hi : i < bytes.length), buf (k + i) = bytes[i]

section StandsAt

variable {buf : Nat → Byte} {k : Nat} {front rest : List Byte}

theorem StandsAt.left (h : StandsAt buf k (front ++ rest)) : StandsAt buf k front := by
  intro i hi
  rw [h i (by rw [List.length_append]; omega), List.getElem_append_left hi]

theorem StandsAt.right (h : StandsAt buf k (front ++ rest)) : StandsAt buf (k + front.length) rest := by
  intro i hi
  have hlt : front.length + i < (front ++ rest).length := by rw [List.length_append]; omega
  have hbyte := h (front.length + i) hlt
  rw [List.getElem_append_right (Nat.le_add_right _ _), ← Nat.add_assoc] at hbyte
  rw [hbyte]
  congr 1
  omega

theorem StandsAt.shift (h : StandsAt buf k rest) : StandsAt (fun i => buf (k + i)) 0 rest := by
  intro i hi
  rw [Nat.zero_add]
  exact h i hi

theorem StandsAt.field {n w : Nat} {value : BitVec w} (h : StandsAt buf k (littleEndian n value))
    (hw : w = 8 * n) : BitVec.ofNat w (readLittleEndian buf k n) = value := by
  have hread : readLittleEndian buf k n = value.toNat % 256 ^ n := by
    apply readLittleEndian_eq_mod
    intro i hi
    have hlt : i < (littleEndian n value).length := by rwa [length_littleEndian]
    have hbyte := getElem?_littleEndian value hi
    rw [List.getElem?_eq_getElem hlt, Option.some.injEq] at hbyte
    rw [← hbyte]
    exact h i hlt
  have hbound : value.toNat < 256 ^ n := by
    subst hw
    exact lt_of_lt_of_eq value.isLt (Nat.pow_mul 2 8 n)
  rw [hread, Nat.mod_eq_of_lt hbound, BitVec.ofNat_toNat, BitVec.setWidth_eq]

theorem StandsAt.byte {value : Byte} (h : StandsAt buf k [value]) : buf k = value :=
  h 0 Nat.zero_lt_one

theorem StandsAt.data {data : List Byte} (h : StandsAt buf k data) {n : Nat} (hn : data.length = n) :
    (List.range n).map (fun i => buf (k + i)) = data := by
  subst hn
  apply List.ext_getElem
  · rw [List.length_map, List.length_range]
  · intro i hi hdata
    rw [List.getElem_map, List.getElem_range]
    exact h i hdata

end StandsAt

theorem readLittleEndian_congr {buf buf' : Nat → Byte} {start n : Nat}
    (h : ∀ i, start ≤ i → i < start + n → buf' i = buf i) :
    readLittleEndian buf' start n = readLittleEndian buf start n := by
  induction n generalizing start with
  | zero => rfl
  | succ n ih =>
      rw [readLittleEndian, readLittleEndian, h start (Nat.le_refl _) (by omega), ih]
      intro i hi hlt
      exact h i (by omega) (by omega)

namespace DataPost

def Sized (post : DataPost) : Prop :=
  post.len.toNat = post.data.length

@[simp]
theorem length_bytes (post : DataPost) : post.bytes.length = sizeofDataPost + post.data.length := by
  simp [bytes, sizeofDataPost]
  omega

theorem ofBytes_eq {post : DataPost} (hsized : post.Sized) {buf : Nat → Byte}
    (hbuf : StandsAt buf 0 post.bytes) : ofBytes buf = post := by
  obtain ⟨seq, len, fecSeq, fecIndex, data⟩ := post
  simp only [bytes, List.append_assoc] at hbuf
  have hseq := hbuf.left.field rfl
  have hbuf := hbuf.right
  have hlen := hbuf.left.field rfl
  have hbuf := hbuf.right
  have hfecSeq := hbuf.left.field rfl
  have hbuf := hbuf.right
  have hfecIndex := hbuf.left.byte
  have hdata := hbuf.right.data hsized.symm
  simp only [length_littleEndian, List.length_singleton, Nat.reduceAdd] at hlen hfecSeq hfecIndex hdata
  rw [ofBytes]
  simp only [hseq, hlen, hfecSeq, hfecIndex, sizeofDataPost, hdata]

theorem ofBytes_congr {buf buf' : Nat → Byte}
    (h : ∀ i < sizeofDataPost + (ofBytes buf).len.toNat, buf' i = buf i) :
    ofBytes buf' = ofBytes buf := by
  have hsize : sizeofDataPost = 11 := rfl
  have hseq : readLittleEndian buf' 0 4 = readLittleEndian buf 0 4 :=
    readLittleEndian_congr fun i _ hi => h i (by omega)
  have hlen : readLittleEndian buf' 4 2 = readLittleEndian buf 4 2 :=
    readLittleEndian_congr fun i _ hi => h i (by omega)
  have hfecSeq : readLittleEndian buf' 6 4 = readLittleEndian buf 6 4 :=
    readLittleEndian_congr fun i _ hi => h i (by omega)
  have hfecIndex : buf' 10 = buf 10 := h 10 (by omega)
  have hdata : (List.range (ofBytes buf).len.toNat).map (fun i => buf' (sizeofDataPost + i)) =
      (List.range (ofBytes buf).len.toNat).map (fun i => buf (sizeofDataPost + i)) := by
    apply List.map_congr_left
    intro i hi
    exact h _ (by have := List.mem_range.mp hi; omega)
  rw [ofBytes, ofBytes]
  simp only [hseq, hlen, hfecSeq, hfecIndex]
  congr 1

end DataPost

end Liteflow
