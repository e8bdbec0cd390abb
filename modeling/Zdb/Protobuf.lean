import Mathlib.Algebra.Group.Nat.Defs

/-! The protobuf wire format, as far as messages of numbers, strings, bytes and
messages use it. Numbers have no bound here. A message type is given by the fields
it writes and by what it reads from fields; parsing undoes serialization as soon as
reading undoes writing. -/

namespace Zdb.Protobuf

/-- Seven bits a byte, the lowest first; the high bit says that more follow. -/
def varint (n : ℕ) : List UInt8 :=
  if n < 128 then [UInt8.ofNat n] else UInt8.ofNat (n % 128 + 128) :: varint (n / 128)
termination_by n

def readVarint : List UInt8 → Option (ℕ × List UInt8)
  | [] => none
  | b :: rest =>
      if b.toNat < 128 then some (b.toNat, rest)
      else (readVarint rest).map fun found => (b.toNat - 128 + 128 * found.1, found.2)

theorem readVarint_varint (n : ℕ) (rest : List UInt8) :
    readVarint (varint n ++ rest) = some (n, rest) := by
  induction n using Nat.strongRecOn with
  | ind n ih =>
    rw [varint]
    by_cases small : n < 128
    · have byte : (UInt8.ofNat n).toNat = n := by
        rw [UInt8.toNat_ofNat']
        omega
      simp [small, readVarint, byte]
    · have byte : (UInt8.ofNat (n % 128 + 128)).toNat = n % 128 + 128 := by
        rw [UInt8.toNat_ofNat']
        omega
      have tail := ih (n / 128) (by omega)
      simp only [if_neg small, List.cons_append, readVarint, byte, tail, Option.map_some]
      rw [if_neg (by omega), Nat.add_sub_cancel, Nat.mod_add_div]

theorem varint_length_pos (n : ℕ) : 0 < (varint n).length := by
  rw [varint]
  split <;> simp

inductive Wire where
  | varint (n : ℕ)
  | len (data : List UInt8)
  deriving DecidableEq, Repr

abbrev Record := List (ℕ × Wire)

def writeField : ℕ × Wire → List UInt8
  | (f, .varint n) => varint (8 * f) ++ varint n
  | (f, .len data) => varint (8 * f + 2) ++ (varint data.length ++ data)

def readField (bytes : List UInt8) : Option ((ℕ × Wire) × List UInt8) :=
  (readVarint bytes).bind fun (tag, rest) =>
    (readVarint rest).bind fun (n, rest) =>
      match tag % 8 with
      | 0 => some ((tag / 8, .varint n), rest)
      | 2 => if n ≤ rest.length then some ((tag / 8, .len (rest.take n)), rest.drop n) else none
      | _ => none

theorem readField_writeField (field : ℕ × Wire) (rest : List UInt8) :
    readField (writeField field ++ rest) = some (field, rest) := by
  obtain ⟨f, payload⟩ := field
  cases payload with
  | varint n =>
    simp only [writeField, List.append_assoc, readField, readVarint_varint, Option.bind_some]
    rw [Nat.mul_mod_right, Nat.mul_div_cancel_left f (by decide)]
    rfl
  | len data =>
    have kind : (8 * f + 2) % 8 = 2 := by omega
    have number : (8 * f + 2) / 8 = f := by omega
    simp only [writeField, List.append_assoc, readField, readVarint_varint, Option.bind_some,
      kind, number]
    simp

def serialize (r : Record) : List UInt8 := r.flatMap writeField

/-- One field for each unit of fuel, until the input is empty. -/
def parseFields : ℕ → List UInt8 → Option Record
  | _, [] => some []
  | 0, _ :: _ => none
  | fuel + 1, bytes =>
      (readField bytes).bind fun (field, rest) => (parseFields fuel rest).map (field :: ·)

def parse (bytes : List UInt8) : Option Record := parseFields bytes.length bytes

theorem writeField_length_pos (field : ℕ × Wire) : 0 < (writeField field).length := by
  obtain ⟨f, payload⟩ := field
  cases payload with
  | varint n =>
    rw [writeField, List.length_append]
    exact Nat.add_pos_left (varint_length_pos _) _
  | len data =>
    rw [writeField, List.length_append]
    exact Nat.add_pos_left (varint_length_pos _) _

theorem parseFields_succ {bytes : List UInt8} (fuel : ℕ) (more : 0 < bytes.length) :
    parseFields (fuel + 1) bytes =
      (readField bytes).bind fun (field, rest) => (parseFields fuel rest).map (field :: ·) := by
  cases bytes with
  | nil => cases more
  | cons b rest => rfl

theorem parseFields_serialize (r : Record) (fuel : ℕ) (enough : (serialize r).length ≤ fuel) :
    parseFields fuel (serialize r) = some r := by
  induction r generalizing fuel with
  | nil => cases fuel <;> rfl
  | cons field rest ih =>
    have pos := writeField_length_pos field
    simp only [serialize, List.flatMap_cons, List.length_append] at enough ih ⊢
    obtain ⟨fuel, rfl⟩ : ∃ k, fuel = k + 1 := ⟨fuel - 1, by omega⟩
    rw [parseFields_succ fuel (by rw [List.length_append]; omega), readField_writeField,
      Option.bind_some]
    dsimp only
    rw [ih fuel (by omega), Option.map_some]

theorem parse_serialize (r : Record) : parse (serialize r) = some r :=
  parseFields_serialize r _ (Nat.le_refl _)

/-! Fields by their number. A scalar that is there twice has its last value, one
that is missing its default; a default is not written. -/

namespace Record

def numbers (r : Record) (f : ℕ) : List ℕ :=
  r.filterMap fun
    | (g, .varint n) => if g = f then some n else none
    | _ => none

def blobs (r : Record) (f : ℕ) : List (List UInt8) :=
  r.filterMap fun
    | (g, .len data) => if g = f then some data else none
    | _ => none

def uint (r : Record) (f : ℕ) : ℕ := (r.numbers f).getLast?.getD 0

def bool (r : Record) (f : ℕ) : Bool := r.uint f != 0

def optional (r : Record) (f : ℕ) : Option (List UInt8) := (r.blobs f).getLast?

/-- A field that is a message: its occurrences are merged by reading them as one. -/
def message (r : Record) (f : ℕ) : Option (List UInt8) :=
  if r.blobs f = [] then none else some (r.blobs f).flatten

def bytes (r : Record) (f : ℕ) : List UInt8 := (r.optional f).getD []

end Record

def uintField (f n : ℕ) : Record := if n = 0 then [] else [(f, .varint n)]

def boolField (f : ℕ) (b : Bool) : Record := uintField f b.toNat

def bytesField (f : ℕ) (data : List UInt8) : Record :=
  if data = [] then [] else [(f, .len data)]

def optionalField (f : ℕ) (data : Option (List UInt8)) : Record :=
  data.toList.map fun d => (f, .len d)

def repeatedField (f : ℕ) (items : List (List UInt8)) : Record := items.map fun d => (f, .len d)

section Fields

open Record

@[simp] theorem numbers_append (r q : Record) (f : ℕ) :
    numbers (r ++ q) f = numbers r f ++ numbers q f :=
  List.filterMap_append

@[simp] theorem blobs_append (r q : Record) (f : ℕ) :
    blobs (r ++ q) f = blobs r f ++ blobs q f :=
  List.filterMap_append

@[simp] theorem numbers_uintField_ne {f g : ℕ} (other : g ≠ f) (n : ℕ) :
    numbers (uintField g n) f = [] := by
  unfold uintField
  split <;> simp [numbers, other]

@[simp] theorem numbers_boolField_ne {f g : ℕ} (other : g ≠ f) (b : Bool) :
    numbers (boolField g b) f = [] :=
  numbers_uintField_ne other _

@[simp] theorem numbers_bytesField (f g : ℕ) (data : List UInt8) :
    numbers (bytesField g data) f = [] := by
  unfold bytesField
  split <;> simp [numbers]

@[simp] theorem numbers_optionalField (f g : ℕ) (data : Option (List UInt8)) :
    numbers (optionalField g data) f = [] := by
  cases data <;> simp [numbers, optionalField]

@[simp] theorem numbers_repeatedField (f g : ℕ) (items : List (List UInt8)) :
    numbers (repeatedField g items) f = [] := by
  simp [numbers, repeatedField, List.filterMap_map]

@[simp] theorem blobs_uintField (f g n : ℕ) : blobs (uintField g n) f = [] := by
  unfold uintField
  split <;> simp [blobs]

@[simp] theorem blobs_bytesField_ne {f g : ℕ} (other : g ≠ f) (data : List UInt8) :
    blobs (bytesField g data) f = [] := by
  unfold bytesField
  split <;> simp [blobs, other]

@[simp] theorem blobs_optionalField_ne {f g : ℕ} (other : g ≠ f) (data : Option (List UInt8)) :
    blobs (optionalField g data) f = [] := by
  cases data <;> simp [blobs, optionalField, other]

@[simp] theorem blobs_repeatedField_ne {f g : ℕ} (other : g ≠ f) (items : List (List UInt8)) :
    blobs (repeatedField g items) f = [] := by
  simp [blobs, repeatedField, List.filterMap_map, other]

@[simp] theorem last_uintField (f n : ℕ) : (numbers (uintField f n) f).getLast?.getD 0 = n := by
  unfold uintField
  split <;> simp_all [numbers]

@[simp] theorem last_boolField (f : ℕ) (b : Bool) :
    ((numbers (boolField f b) f).getLast?.getD 0 != 0) = b := by
  rw [boolField, last_uintField]
  cases b <;> rfl

@[simp] theorem last_bytesField (f : ℕ) (data : List UInt8) :
    (blobs (bytesField f data) f).getLast?.getD [] = data := by
  unfold bytesField
  split <;> simp_all [blobs]

@[simp] theorem last_optionalField (f : ℕ) (data : Option (List UInt8)) :
    (blobs (optionalField f data) f).getLast? = data := by
  cases data <;> simp [blobs, optionalField]

@[simp] theorem merged_optionalField (f : ℕ) (data : Option (List UInt8)) :
    (if blobs (optionalField f data) f = [] then none
      else some (blobs (optionalField f data) f).flatten) = data := by
  cases data <;> simp [blobs, optionalField]

@[simp] theorem blobs_repeatedField (f : ℕ) (items : List (List UInt8)) :
    blobs (repeatedField f items) f = items := by
  induction items with
  | nil => rfl
  | cons item items ih =>
    have first : blobs (repeatedField f (item :: items)) f =
        item :: blobs (repeatedField f items) f := List.filterMap_cons_some (if_pos rfl)
    rw [first, ih]

end Fields

/-! Strings are checked when they are read. -/

def ofString (s : String) : List UInt8 := s.toUTF8.data.toList

def toString? (data : List UInt8) : Option String := String.fromUTF8? ⟨data.toArray⟩

@[simp] theorem toString?_ofString (s : String) : toString? (ofString s) = some s := by
  have whole : (⟨(ofString s).toArray⟩ : ByteArray) = s.toByteArray := by
    simp [ofString]
  rw [toString?, whole, String.fromUTF8?, dif_pos s.isValidUTF8]
  rfl

structure Message (α : Type) where
  fields : α → Record
  ofFields : Record → Option α

namespace Message

variable {α : Type} (m : Message α)

def serialize (a : α) : List UInt8 := Protobuf.serialize (m.fields a)

def parse (bytes : List UInt8) : Option α := (Protobuf.parse bytes).bind m.ofFields

theorem parse_serialize (a : α) : m.parse (m.serialize a) = m.ofFields (m.fields a) := by
  rw [parse, serialize, Protobuf.parse_serialize, Option.bind_some]

def parseOptional : Option (List UInt8) → Option (Option α)
  | none => some none
  | some bytes => (m.parse bytes).map some

def parseAll (items : List (List UInt8)) : Option (List α) := items.mapM m.parse

/-- Reading what was written checks the message and gives it back. -/
def Checks (check : α → Bool) : Prop :=
  ∀ a, m.ofFields (m.fields a) = if check a then some a else none

variable {m} {check : α → Bool}

theorem Checks.parse (c : m.Checks check) (a : α) :
    m.parse (m.serialize a) = if check a then some a else none := by
  rw [parse_serialize, c a]

theorem Checks.serialize_inj (c : m.Checks check) {a b : α} (ha : check a = true)
    (hb : check b = true) (same : m.serialize a = m.serialize b) : a = b := by
  have read := c.parse a
  rw [same, c.parse b, if_pos ha, if_pos hb] at read
  exact (Option.some.inj read).symm

@[simp] theorem Checks.parseOptional (c : m.Checks check) (o : Option α) :
    m.parseOptional (o.map m.serialize) = if o.all check then some o else none := by
  cases o with
  | none => rfl
  | some a =>
    simp only [Option.map_some, Message.parseOptional, c.parse, Option.all_some]
    split <;> rfl

end Message

theorem mapM_map_check {α β γ : Type} {write : α → β} {read : β → Option γ} {check : α → Bool}
    {change : α → γ} (each : ∀ a, read (write a) = if check a then some (change a) else none)
    (items : List α) :
    (items.map write).mapM read =
      if items.all check then some (items.map change) else none := by
  induction items with
  | nil => rfl
  | cons a rest ih =>
    simp only [List.map_cons, List.mapM_cons, each, ih, List.all_cons]
    cases check a <;> cases rest.all check <;> rfl

theorem Message.Checks.parseAll {α : Type} {m : Message α} {check : α → Bool}
    (c : m.Checks check) (items : List α) :
    m.parseAll (items.map m.serialize) = if items.all check then some items else none := by
  rw [Message.parseAll, mapM_map_check c.parse, List.map_id']

/-! How long messages are. A field is shorter than the message it is parsed from. -/

section Lengths

theorem varint_length_le {n : ℕ} (k : ℕ) (small : n < 128 ^ (k + 1)) :
    (varint n).length ≤ k + 1 := by
  induction k generalizing n with
  | zero => simp [varint, show n < 128 by omega]
  | succ k ih =>
    rw [varint]
    split
    · simp
    · have rest : n / 128 < 128 ^ (k + 1) :=
        Nat.div_lt_of_lt_mul (by rwa [Nat.pow_succ'] at small)
      simpa using ih rest

theorem varint_length_one {n : ℕ} (small : n < 128) : (varint n).length = 1 := by
  rw [varint, if_pos small, List.length_singleton]

theorem writeField_len_length {f : ℕ} (tag : f < 15) (data : List UInt8) :
    (writeField (f, .len data)).length = 1 + (varint data.length).length + data.length := by
  rw [writeField, List.length_append, List.length_append, varint_length_one (by omega)]
  omega

theorem writeField_varint_length {f : ℕ} (tag : f < 16) (n : ℕ) :
    (writeField (f, .varint n)).length = 1 + (varint n).length := by
  rw [writeField, List.length_append, varint_length_one (by omega)]

theorem serialize_append (r s : Record) : serialize (r ++ s) = serialize r ++ serialize s :=
  List.flatMap_append

theorem uintField_length {f n : ℕ} (tag : f < 16) (small : n < 2 ^ 64) :
    (serialize (uintField f n)).length ≤ 11 := by
  rw [uintField]
  split
  · exact Nat.zero_le _
  · have bytes := varint_length_le 9 (show n < 128 ^ 10 by omega)
    rw [serialize, List.flatMap_singleton, writeField_varint_length tag]
    omega

theorem boolField_length {f : ℕ} (tag : f < 16) (b : Bool) :
    (serialize (boolField f b)).length ≤ 11 :=
  uintField_length tag (Nat.lt_of_le_of_lt (Bool.toNat_le b) (by decide))

theorem readVarint_length {bytes rest : List UInt8} {n : ℕ}
    (read : readVarint bytes = some (n, rest)) : rest.length < bytes.length := by
  induction bytes generalizing n rest with
  | nil => cases read
  | cons b tail ih =>
    rw [readVarint] at read
    split at read
    · cases read
      exact Nat.lt_succ_self _
    · obtain ⟨found, readTail, same⟩ := Option.map_eq_some_iff.mp read
      cases same
      exact Nat.lt_succ_of_lt (ih readTail)

def Wire.length : Wire → ℕ
  | .varint _ => 0
  | .len data => data.length

def Record.weight : Record → ℕ
  | [] => 0
  | (_, wire) :: rest => wire.length + 1 + Record.weight rest

theorem readField_length {bytes rest : List UInt8} {field : ℕ × Wire}
    (read : readField bytes = some (field, rest)) :
    field.2.length + 1 + rest.length ≤ bytes.length := by
  obtain ⟨⟨tag, afterTag⟩, readTag, read⟩ := Option.bind_eq_some_iff.mp read
  obtain ⟨⟨n, afterNumber⟩, readNumber, read⟩ := Option.bind_eq_some_iff.mp read
  have tagLength := readVarint_length readTag
  have numberLength := readVarint_length readNumber
  dsimp only at read
  split at read
  · cases read
    simp only [Wire.length]
    omega
  · split at read
    · cases read
      simp only [Wire.length, List.length_take, List.length_drop]
      omega
    · cases read
  · cases read

theorem parseFields_length {fuel : ℕ} {bytes : List UInt8} {r : Record}
    (parsed : parseFields fuel bytes = some r) : r.weight ≤ bytes.length := by
  induction fuel generalizing bytes r with
  | zero =>
    cases bytes with
    | nil =>
      cases parsed
      exact Nat.zero_le _
    | cons b rest => cases parsed
  | succ fuel ih =>
    cases bytes with
    | nil =>
      cases parsed
      exact Nat.zero_le _
    | cons b tail =>
      obtain ⟨⟨field, rest⟩, read, parsed⟩ := Option.bind_eq_some_iff.mp parsed
      obtain ⟨r, parsedRest, rfl⟩ := Option.map_eq_some_iff.mp parsed
      have first := readField_length read
      have others := ih parsedRest
      rw [Record.weight]
      omega

theorem Record.blobs_length (r : Record) (f : ℕ) :
    (r.blobs f).flatten.length + (r.blobs f).length ≤ r.weight := by
  induction r with
  | nil => exact Nat.le_refl _
  | cons field rest ih =>
    obtain ⟨g, wire⟩ := field
    cases wire with
    | varint n =>
      simp only [Record.blobs, List.filterMap_cons, Record.weight] at ih ⊢
      omega
    | len data =>
      by_cases same : g = f
      all_goals
        simp only [Record.blobs, List.filterMap_cons, Record.weight, same, if_true, if_false,
          List.flatten_cons, List.length_append, List.length_cons, Wire.length] at ih ⊢
        omega

theorem parse_message_length {bytes data : List UInt8} {r : Record} {f : ℕ}
    (parsed : parse bytes = some r) (found : r.message f = some data) :
    data.length < bytes.length := by
  have whole := parseFields_length parsed
  have part := r.blobs_length f
  rw [Record.message] at found
  split at found
  · cases found
  case isFalse some =>
    cases found
    have := List.length_pos_iff.mpr some
    omega

theorem parse_bytes_length {bytes : List UInt8} {r : Record} (parsed : parse bytes = some r)
    (f : ℕ) : (r.bytes f).length ≤ bytes.length := by
  have whole := parseFields_length parsed
  have part := r.blobs_length f
  rw [Record.bytes, Record.optional]
  cases last : (r.blobs f).getLast? with
  | none => exact Nat.zero_le _
  | some data =>
    have member := List.mem_of_getLast? last
    have within : data.length ≤ (r.blobs f).flatten.length :=
      (List.sublist_flatten_of_mem member).length_le
    rw [Option.getD_some]
    omega

end Lengths

end Zdb.Protobuf
