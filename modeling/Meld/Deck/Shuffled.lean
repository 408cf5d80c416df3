import Meld.Deck.Basic
import Meld.Random.Shuffle

namespace Meld.Deck

def shuffled (seed : UInt64) : List Card := Random.shuffle (Random.words seed) full

end Meld.Deck
