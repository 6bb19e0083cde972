import Mathlib

/-!
# The protobuf wire format

A message on the wire is a list of numbered fields, each a varint or a length-delimited string of
bytes. A message type is given by the fields it writes and by what it does with a field it reads;
reading back what was written is then a matter of the fields alone. The reader knows what the writer
writes, and is not a model of a particular implementation on other bytes: varints are of any size,
and there are no fixed-width fields.
-/

namespace Protobuf

/-! ## Varints -/

/-- Seven bits a byte, least significant first; the first argument bounds the recursion. -/
def encodeVarintAux : ℕ → ℕ → List UInt8
  | 0, n => [UInt8.ofNat n]
  | fuel + 1, n =>
      if n < 128 then [UInt8.ofNat n]
      else UInt8.ofNat (n % 128 + 128) :: encodeVarintAux fuel (n / 128)

def encodeVarint (n : ℕ) : List UInt8 := encodeVarintAux n n

def decodeVarint : List UInt8 → Option (ℕ × List UInt8)
  | [] => none
  | b :: bs =>
      if b.toNat < 128 then some (b.toNat, bs)
      else (decodeVarint bs).map fun (n, rest) ↦ (b.toNat - 128 + 128 * n, rest)

theorem decodeVarint_encodeVarintAux (fuel n : ℕ) (hn : n ≤ fuel) (rest : List UInt8) :
    decodeVarint (encodeVarintAux fuel n ++ rest) = some (n, rest) := by
  induction fuel generalizing n with
  | zero =>
      obtain rfl : n = 0 := by omega
      simp [encodeVarintAux, decodeVarint]
  | succ fuel ih =>
      simp only [encodeVarintAux]
      split
      · rename_i hlt
        have hmod : n % 256 = n := by omega
        simp [decodeVarint, hmod, hlt]
      · rename_i hge
        have hbyte : (UInt8.ofNat (n % 128 + 128)).toNat = n % 128 + 128 := by
          rw [UInt8.toNat_ofNat']
          omega
        have hrec := ih (n / 128) (by omega)
        have hlt : ¬ n % 128 + 128 < 128 := by omega
        simp only [List.cons_append, decodeVarint, hbyte, hlt, if_false, hrec, Option.map_some]
        congr 2
        omega

theorem decodeVarint_encodeVarint (n : ℕ) (rest : List UInt8) :
    decodeVarint (encodeVarint n ++ rest) = some (n, rest) :=
  decodeVarint_encodeVarintAux n n le_rfl rest

theorem encodeVarint_ne_nil (n : ℕ) : encodeVarint n ≠ [] := by
  intro h
  have hdecode := decodeVarint_encodeVarint n []
  simp [h, decodeVarint] at hdecode

/-! ## Fields -/

inductive Value where
  | varint (n : ℕ)
  | bytes (b : List UInt8)
  deriving DecidableEq

def encodeField : ℕ × Value → List UInt8
  | (k, .varint n) => encodeVarint (8 * k) ++ encodeVarint n
  | (k, .bytes b) => encodeVarint (8 * k + 2) ++ (encodeVarint b.length ++ b)

def decodeValue (bs : List UInt8) : ℕ → Option (Value × List UInt8)
  | 0 => (decodeVarint bs).map fun (n, rest) ↦ (.varint n, rest)
  | 2 => (decodeVarint bs).bind fun (len, rest) ↦
      if len ≤ rest.length then some (.bytes (rest.take len), rest.drop len) else none
  | _ => none

def decodeField (bs : List UInt8) : Option ((ℕ × Value) × List UInt8) :=
  (decodeVarint bs).bind fun (key, rest) ↦
    (decodeValue rest (key % 8)).map fun (v, rest) ↦ ((key / 8, v), rest)

theorem decodeField_encodeField (f : ℕ × Value) (rest : List UInt8) :
    decodeField (encodeField f ++ rest) = some (f, rest) := by
  obtain ⟨k, n | b⟩ := f
  · have hmod : 8 * k % 8 = 0 := by omega
    have hdiv : 8 * k / 8 = k := by omega
    simp [decodeField, encodeField, decodeVarint_encodeVarint, decodeValue, hmod, hdiv]
  · have hmod : (8 * k + 2) % 8 = 2 := by omega
    have hdiv : (8 * k + 2) / 8 = k := by omega
    simp [decodeField, encodeField, decodeVarint_encodeVarint, decodeValue, hmod, hdiv]

theorem encodeField_ne_nil (f : ℕ × Value) : encodeField f ≠ [] := by
  obtain ⟨k, n | b⟩ := f <;> simp [encodeField, encodeVarint_ne_nil]

def decodeFields : ℕ → List UInt8 → Option (List (ℕ × Value))
  | _, [] => some []
  | 0, _ :: _ => none
  | fuel + 1, b :: bs =>
      (decodeField (b :: bs)).bind fun (f, rest) ↦ (decodeFields fuel rest).map (f :: ·)

theorem decodeFields_flatMap (fields : List (ℕ × Value)) (fuel : ℕ)
    (hfuel : fields.length ≤ fuel) :
    decodeFields fuel (fields.flatMap encodeField) = some fields := by
  induction fields generalizing fuel with
  | nil => cases fuel <;> rfl
  | cons f fields ih =>
      obtain ⟨fuel, rfl⟩ : ∃ k, fuel = k + 1 := ⟨fuel - 1, by simp at hfuel; omega⟩
      rw [List.flatMap_cons]
      obtain ⟨b, bs, hbs⟩ := List.exists_cons_of_ne_nil (encodeField_ne_nil f)
      have hfield := decodeField_encodeField f (fields.flatMap encodeField)
      rw [hbs, List.cons_append] at hfield ⊢
      have hrest := ih fuel (by simpa using hfuel)
      simp [decodeFields, hfield, hrest]

theorem length_le_length_flatMap (fields : List (ℕ × Value)) :
    fields.length ≤ (fields.flatMap encodeField).length := by
  induction fields with
  | nil => simp
  | cons f fields ih =>
      have hpos := List.length_pos_iff.mpr (encodeField_ne_nil f)
      simp only [List.flatMap_cons, List.length_append, List.length_cons]
      omega

/-! ## Messages -/

/-- A message type: what it writes, and how it merges one field into what it has read so far. -/
structure Message (M : Type) where
  default : M
  fields : M → List (ℕ × Value)
  merge : M → ℕ × Value → Option M
  foldlM_fields : ∀ m, (fields m).foldlM merge default = some m

namespace Message

variable {M : Type} (S : Message M)

def encode (m : M) : List UInt8 := (S.fields m).flatMap encodeField

/-- A singular message field that occurs again is merged into its earlier value. -/
def mergeBytes (m : M) (bs : List UInt8) : Option M :=
  (decodeFields bs.length bs).bind fun fields ↦ fields.foldlM S.merge m

def decode (bs : List UInt8) : Option M := S.mergeBytes S.default bs

theorem decode_encode (m : M) : S.decode (S.encode m) = some m := by
  rw [decode, mergeBytes, encode, decodeFields_flatMap _ _ (length_le_length_flatMap _),
    Option.bind_some, S.foldlM_fields]

end Message

/-! ## Scalars -/

/-- A singular field is left out when it has its default value. -/
def singular (isDefault : Prop) [Decidable isDefault] (k : ℕ) (v : Value) : List (ℕ × Value) :=
  if isDefault then [] else [(k, v)]

/-- Reading a singular field that was written, or left out because it is the default. -/
theorem foldlM_singular {M : Type} {merge : M → ℕ × Value → Option M} {isDefault : Prop}
    [Decidable isDefault] {k : ℕ} {v : Value} {a b : M} (hdefault : isDefault → a = b)
    (hmerge : merge a (k, v) = some b) :
    (singular isDefault k v).foldlM merge a = some b := by
  unfold singular
  split
  · rename_i h
    simp [hdefault h]
  · simp [hmerge]

/-- Reading the fields of a message one group after the other. -/
theorem foldlM_append_some {M : Type} {merge : M → ℕ × Value → Option M}
    {xs ys : List (ℕ × Value)} {a b c : M} (hxs : xs.foldlM merge a = some b)
    (hys : ys.foldlM merge b = some c) : (xs ++ ys).foldlM merge a = some c := by
  simp [List.foldlM_append, hxs, hys]

/-- Reading a repeated field. -/
theorem foldlM_map_some {M X : Type} {merge : M → ℕ × Value → Option M} {item : X → ℕ × Value}
    {f : M → List X → M} (hf : ∀ m, f m [] = m)
    (hmerge : ∀ m done x, merge (f m done) (item x) = some (f m (done ++ [x])))
    (m : M) (xs : List X) : (xs.map item).foldlM merge m = some (f m xs) := by
  suffices h : ∀ done, (xs.map item).foldlM merge (f m done) = some (f m (done ++ xs)) by
    simpa [hf] using h []
  induction xs with
  | nil => simp
  | cons x xs ih =>
      intro done
      simp [hmerge, ih]

def utf8 (s : String) : List UInt8 := s.toUTF8.data.toList

def ofUtf8? (bs : List UInt8) : Option String := String.fromUTF8? ⟨⟨bs⟩⟩

theorem ofUtf8?_utf8 (s : String) : ofUtf8? (utf8 s) = some s := by
  have hvalid : (⟨⟨s.toUTF8.data.toList⟩⟩ : ByteArray).IsValidUTF8 := s.isValidUTF8
  exact dif_pos hvalid

end Protobuf
