/-!
# Quoted text

The written form of a text inside a line of a log: between quotation marks, with a
backslash before quotation marks and backslashes, short escapes for NUL, tab, line feed
and carriage return, and `\u` with the code point in braces for the other control
characters of ASCII. Characters beyond ASCII stand for themselves.

## Main results

* `quoteChar_of_plain` — a character that needs no escape stands for itself.
-/

namespace JvmCode.Text

/-- The lower-case hexadecimal digits of a number, without leading zeros. -/
def hexDigits (n : Nat) : List Char := Nat.toDigits 16 n

/-- Control characters of ASCII, which are written by their code point. -/
def isControl (c : Char) : Bool := c.toNat < 0x20 || c.toNat == 0x7F

/-- How a character is written between quotation marks. -/
def quoteChar (c : Char) : List Char :=
  if c = '"' ∨ c = '\\' then ['\\', c]
  else if c = '\x00' then ['\\', '0']
  else if c = '\t' then ['\\', 't']
  else if c = '\n' then ['\\', 'n']
  else if c = '\r' then ['\\', 'r']
  else if isControl c then '\\' :: 'u' :: '\x7b' :: (hexDigits c.toNat ++ ['\x7d'])
  else [c]

/-- The text between quotation marks. -/
def quote (text : String) : String :=
  String.ofList ('"' :: (text.toList.flatMap quoteChar ++ ['"']))

theorem quoteChar_of_plain {c : Char} (h : isControl c = false) (hq : c ≠ '"') (hb : c ≠ '\\') :
    quoteChar c = [c] := by
  have control : ∀ d : Char, isControl d = true → c ≠ d := fun d hd hc => by simp [hc, hd] at h
  simp [quoteChar, h, hq, hb, control '\x00' rfl, control '\t' rfl, control '\n' rfl,
    control '\r' rfl]

end JvmCode.Text
