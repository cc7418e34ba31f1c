/-
# Padding a text to a length

A text is filled up with one character, in front or behind, until it has the length asked for.
Lengths count code points, and so a character that takes several bytes fills one place.  A text that
is long enough already is left alone, and is not cut off: padding never loses anything.  The two
directions are the two that the standard library has for lists, so nothing is to be proved about
them but what length comes out.

* `length_padLeft`, `length_padRight`: the padded length is the larger of the two.
-/
namespace DecimalCalc
namespace Text

/-- Puts `pad` in front until the text has `length` characters.  A longer text stays as it is. -/
def padLeft (text : String) (length : Nat) (pad : Char) : String :=
  String.ofList (text.toList.leftpad length pad)

/-- Puts `pad` behind until the text has `length` characters.  A longer text stays as it is. -/
def padRight (text : String) (length : Nat) (pad : Char) : String :=
  String.ofList (text.toList.rightpad length pad)

theorem length_padLeft (text : String) (length : Nat) (pad : Char) :
    (padLeft text length pad).length = max length text.length := by
  simp [padLeft, List.leftpad, String.length_toList]; omega

theorem length_padRight (text : String) (length : Nat) (pad : Char) :
    (padRight text length pad).length = max length text.length := by
  simp [padRight, List.rightpad, String.length_toList]; omega

end Text
end DecimalCalc
