/-! # Case folding onto the basic letters.

Texts that differ in case alone have the same folded form. Only the characters that fold onto basic
letters are changed here, so the folded form tells whether a text equals one of basic characters. -/

namespace SiteServer.Text

/-- The characters beyond the basic ones that fold onto basic letters: the long s, the kelvin sign, the
sharp s in both cases, and the ligatures. -/
def foldings : List (Char × List Char) :=
  [('\u017f', ['s']), ('\u212a', ['k']), ('\u00df', ['s', 's']), ('\u1e9e', ['s', 's']),
   ('\ufb00', ['f', 'f']), ('\ufb01', ['f', 'i']), ('\ufb02', ['f', 'l']),
   ('\ufb03', ['f', 'f', 'i']), ('\ufb04', ['f', 'f', 'l']), ('\ufb05', ['s', 't']),
   ('\ufb06', ['s', 't'])]

def foldChar (c : Char) : List Char :=
  (foldings.lookup c).getD [c.toLower]

def fold (text : String) : String :=
  String.ofList (text.toList.flatMap foldChar)

end SiteServer.Text
