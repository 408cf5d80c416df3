import Meld.Card.Basic
import Meld.Phase.Basic

namespace Meld

/-- The cards share what the shape asks for; wild cards stand for any other. The ranks of a run
begin above `below`. -/
def Shape.Groups : Shape → List Card → Prop
  | set, cards => ∃ step, ∀ c ∈ cards, c = Card.wild ∨ c.rank = .number step
  | color, cards => ∃ k ∈ Color.real, ∀ c ∈ cards, c = Card.wild ∨ c.color = k
  | run, cards => ∃ below, below + cards.length ≤ 12 ∧
      ∀ i (h : i < cards.length), cards[i] = Card.wild ∨ cards[i].rank.value? = some (below + i + 1)

/-- The cards fall into blocks, one for each component. All blocks but the last are of the exact
size, and the last may be longer unless it is a run. -/
def Phase.Splits : List Component → List Card → Prop
  | [], _ => False
  | [c], cards =>
    c.size.toNat ≤ cards.length ∧ (c.shape = .run → cards.length = c.size.toNat)
      ∧ c.shape.Groups cards
  | c :: d :: cs, cards =>
    c.size.toNat ≤ cards.length ∧ c.shape.Groups (cards.take c.size.toNat)
      ∧ Phase.Splits (d :: cs) (cards.drop c.size.toNat)

def Phase.IsMetBy : Phase → List Card → Prop
  | unsized shape, cards => cards ≠ [] ∧ shape.Groups cards
  | sized components, cards => Phase.Splits components cards

end Meld
