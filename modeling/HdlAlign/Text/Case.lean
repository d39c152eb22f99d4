import HdlAlign.Text.Blank
import HdlAlign.Text.Utf8
import HdlAlign.Unicode.LowerCase

namespace HdlAlign.Text

/-- Every character in lower case.  Bytes that are no character become replacement characters. -/
def lowerCase (text : Text) : Text :=
  Utf8.encode ((Utf8.chars text).map fun c => Char.ofNat (Unicode.lowerCode c.toNat))

def keyword (text : Text) : Text := lowerCase (trim text)

end HdlAlign.Text
