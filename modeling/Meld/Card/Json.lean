import Meld.Card.Token
import Meld.Decimal.Shortest

namespace Meld

/-- A JSON value. What an object holds is of no use to a list of cards. -/
inductive Json where
  | null
  | boolean (value : Bool)
  | integer (value : Int)
  | decimal (value : Float)
  | text (value : String)
  | sequence (items : List Json)
  | map
  deriving Inhabited

namespace Json

def describe : Json → String
  | null => "null"
  | boolean true => "boolean `true`"
  | boolean false => "boolean `false`"
  | integer value => "integer `" ++ toString value ++ "`"
  | decimal value => "floating point `" ++ Decimal.text value ++ "`"
  | text value => "string " ++ Text.quote value
  | sequence _ => "sequence"
  | map => "map"

end Json

inductive Json.Error where
  | notText (found : Json)
  | notSequence (found : Json)
  | badCard (error : Card.Error)

def Json.Error.message : Json.Error → String
  | notText found => "invalid type: " ++ found.describe ++ ", expected a string"
  | notSequence found => "invalid type: " ++ found.describe ++ ", expected a sequence"
  | badCard error => error.message

def Card.ofJson : Json → Except Json.Error Card
  | .text token => (Card.parse token).mapError .badCard
  | found => .error (.notText found)

/-- The first item that is no card decides the error. -/
def Card.listOfJson : Json → Except Json.Error (List Card)
  | .sequence items => items.mapM ofJson
  | found => .error (.notSequence found)

end Meld
