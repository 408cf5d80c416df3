import Meld.Card.Basic

namespace Meld.Deck

def copies : Nat := 2

def skips : Nat := 4

def wilds : Nat := 8

def size : Nat := Color.real.length * Rank.numbered.length * copies + skips + wilds

def suit (color : Color) : List Card :=
  (Rank.numbered.filterMap fun rank => (Card.make color rank).toOption).flatMap
    (List.replicate copies)

def full : List Card :=
  Color.real.flatMap suit ++ List.replicate skips Card.skip ++ List.replicate wilds Card.wild

theorem length_full : full.length = size := by decide

end Meld.Deck
