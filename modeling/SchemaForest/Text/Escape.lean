/-!
# Texts inside other texts

How a text is written where some of its characters would mean something: in a table with commas or
tabs, in markup, in a shell command, in an address, or where only sixty-four characters are safe.
-/

namespace SchemaForest.Text

/-- Replaces characters by texts. -/
def replaceChars (f : Char → Option String) (s : String) : String :=
  String.join (s.toList.map fun c => (f c).getD c.toString)

/-- A text between quotes of a table: quotes are doubled. -/
def escapeQuotes (s : String) : String :=
  replaceChars (fun c => if c = '"' then some "\"\"" else none) s

/-- A text between tabs. -/
def escapeTabs (s : String) : String :=
  replaceChars (fun c =>
    match c with
    | '\\' => some "\\\\"
    | '\t' => some "\\t"
    | '\n' => some "\\n"
    | '\r' => some "\\r"
    | _ => none) s

/-- A text inside markup. -/
def escapeMarkup (s : String) : String :=
  replaceChars (fun c =>
    match c with
    | '<' => some "&lt;"
    | '>' => some "&gt;"
    | '&' => some "&amp;"
    | '\'' => some "&apos;"
    | '"' => some "&quot;"
    | _ => none) s

/-- A text between the single quotes of a shell command. -/
def escapeShell (s : String) : String :=
  replaceChars (fun c => if c = '\'' then some "'\\''" else none) s

/-- The characters that stand for themselves in an address. -/
def isPlainInAddress (c : Char) : Bool :=
  c.isAlphanum || c == '-' || c == '_' || c == '.' || c == '~'

/-- A text in an address: every byte of any other character is a percent sign and two hexadecimal
    digits. -/
def escapeAddress (s : String) : String :=
  let digit (n : Nat) : Char := Char.ofNat (if n < 10 then 48 + n else 55 + n)
  replaceChars (fun c =>
    if isPlainInAddress c then none
    else some (String.ofList (c.toString.toUTF8.toList.flatMap fun b =>
      ['%', digit (b.toNat / 16), digit (b.toNat % 16)]))) s

/-! ## Sixty-four characters -/

/-- The characters that stand for six bits. -/
def sextets : List Char :=
  "ABCDEFGHIJKLMNOPQRSTUVWXYZabcdefghijklmnopqrstuvwxyz0123456789+/".toList

/-- The characters for some bytes: four for every three, filled up at the end. -/
def encodeSextets : List UInt8 → List Char
  | [] => []
  | [a] =>
    let n := a.toNat * 16
    [n / 64, n % 64].map (sextets.getD · '=') ++ ['=', '=']
  | [a, b] =>
    let n := (a.toNat * 256 + b.toNat) * 4
    [n / 4096, n / 64 % 64, n % 64].map (sextets.getD · '=') ++ ['=']
  | a :: b :: c :: rest =>
    let n := (a.toNat * 256 + b.toNat) * 256 + c.toNat
    [n / 262144, n / 4096 % 64, n / 64 % 64, n % 64].map (sextets.getD · '=') ++
      encodeSextets rest

/-- The number that some characters stand for, six bits each. -/
def sextetNumber? (cs : List Char) : Option Nat :=
  cs.foldlM (fun n c => (sextets.idxOf? c).map (n * 64 + ·)) 0

/-- The bytes of some characters.  The fill at the end has to be there, and the bits that it leaves
    over have to be zero. -/
def decodeSextets? : List Char → Option (List UInt8)
  | [] => some []
  | [a, b, '=', '='] => do
    let n ← sextetNumber? [a, b]
    if n % 16 = 0 then some [.ofNat (n / 16)] else none
  | [a, b, c, '='] => do
    let n ← sextetNumber? [a, b, c]
    if n % 4 = 0 then some [.ofNat (n / 1024), .ofNat (n / 4 % 256)] else none
  | a :: b :: c :: d :: rest => do
    let n ← sextetNumber? [a, b, c, d]
    let bytes ← decodeSextets? rest
    some (.ofNat (n / 65536) :: .ofNat (n / 256 % 256) :: .ofNat (n % 256) :: bytes)
  | _ => none

/-- A text in sixty-four characters. -/
def encodeBase64 (s : String) : String := String.ofList (encodeSextets s.toUTF8.toList)

/-- The text that sixty-four characters stand for. -/
def decodeBase64? (s : String) : Option String := do
  let bytes ← decodeSextets? s.toList
  String.fromUTF8? ⟨bytes.toArray⟩

end SchemaForest.Text
