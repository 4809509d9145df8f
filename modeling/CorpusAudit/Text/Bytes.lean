/-!
# Texts as bytes

Files hold bytes.  `encode` gives the UTF-8 bytes of a text and `decode?` reads them
back; bytes that are no UTF-8 text are refused.  Where a damaged text is no harm, it is
taken as a list of symbols (`symbols`): what is no character is a symbol without a
character, and `whole?` is the text of symbols that are all characters.
-/

namespace CorpusAudit

/-- The content of a file. -/
abbrev Bytes := List UInt8

namespace Text

/-- The UTF-8 bytes of a text. -/
def encode (s : String) : Bytes :=
  s.toByteArray.data.toList

/-- The text with the given UTF-8 bytes. -/
def decode? (bytes : Bytes) : Option String :=
  String.fromUTF8? (ByteArray.mk bytes.toArray)

/-- An encoded text is read back. -/
theorem decode?_encode (s : String) :
  decode? (encode s) = some s
  := by
  have h : ByteArray.mk (encode s).toArray = s.toByteArray := by simp [encode]
  rw [decode?, h]
  simp [String.fromUTF8?, String.fromUTF8, s.isValidUTF8]

/-- Bytes are read as a text only if they are its encoding. -/
theorem eq_encode_of_decode? {bytes : Bytes} {s : String} (h : decode? bytes = some s) :
  bytes = encode s
  := by
  simp only [decode?, String.fromUTF8?] at h
  split at h
  · simp only [Option.some.injEq] at h
    subst h
    simp [encode, String.fromUTF8]
  · simp at h

/-! ### Damaged texts -/

/-- A character of a text that may be damaged; what is no character is `none`. -/
abbrev Symbol := Option Char

/-- The character that `b` starts, if the bytes that follow go on with it, and how many of
them it takes. -/
def character? (b : UInt8) (bytes : Bytes) : Option (Char × Nat) :=
  [0, 1, 2, 3].findSome? fun n =>
    (decode? (b :: bytes.take n)).bind fun s => s.toList.head?.map fun c => (c, n)

/-- The symbols of bytes that are no text: every byte that belongs to no character is a
symbol of its own. -/
def salvage : Bytes → List Symbol
  | [] => []
  | b :: bytes => match character? b bytes with
    | some (c, n) => some c :: salvage (bytes.drop n)
    | none => none :: salvage bytes
termination_by bytes => bytes.length
decreasing_by
  · simp only [List.length_drop, List.length_cons]
    omega
  · simp

/-- The symbols that bytes stand for. -/
def symbols (bytes : Bytes) : List Symbol :=
  match decode? bytes with
  | some s => s.toList.map some
  | none => salvage bytes

/-- The symbols of an encoded text are its characters. -/
theorem symbols_encode (s : String) :
  symbols (encode s) = s.toList.map some
  := by
  rw [symbols, decode?_encode]

/-- The text of symbols that are all characters. -/
def whole? (cs : List Symbol) : Option String :=
  (cs.mapM id).map String.ofList

theorem whole?_map_some (cs : List Char) :
  whole? (cs.map some) = some (String.ofList cs)
  := by
  have h : (cs.map some).mapM id = some cs := by
    induction cs with
    | nil => rfl
    | cons c cs ih => simp [ih]
  rw [whole?, h]
  rfl

end Text

end CorpusAudit
