import Meld.Card.Token
import Meld.Text.Blank

namespace Meld.Card

/-- Cards between blanks. The leftmost bad token is the one reported. -/
def parseHand (text : String) : Except Card.Error (List Card) :=
  (Text.words text.toList).mapM fun word => parse (String.ofList word)

def handText (cards : List Card) : String := " ".intercalate (cards.map text)

end Meld.Card
