import SchemaLang.Token.Basic

namespace SchemaLang

/-- Which tokens spell which value. -/
abbrev Phrase (α : Type) := List Token → α → Prop

namespace Grammar

variable {α : Type} {item item' : Phrase α}

inductive Many (item : Phrase α) : Phrase (List α)
  | nil : Many item [] []
  | cons {p q : List Token} {a : α} {as : List α} :
    item p a → Many item q as → Many item (p ++ q) (a :: as)

/-- Items with commas between them, and perhaps one after the last. -/
inductive Items (item : Phrase α) : Phrase (List α)
  | nil : Items item [] []
  | last {p : List Token} {a : α} : item p a → Items item p [a]
  | cons {p q : List Token} {a : α} {as : List α} {comma : Token} :
    item p a → comma.kind = .mark .comma → Items item q as →
    Items item (p ++ comma :: q) (a :: as)

theorem Many.mono (h : ∀ p a, item p a → item' p a) {p : List Token} {as : List α}
    (hp : Many item p as) : Many item' p as := by
  induction hp with
  | nil => exact .nil
  | cons ha _ ih => exact .cons (h _ _ ha) ih

theorem Items.mono (h : ∀ p a, item p a → item' p a) {p : List Token} {as : List α}
    (hp : Items item p as) : Items item' p as := by
  induction hp with
  | nil => exact .nil
  | last ha => exact .last (h _ _ ha)
  | cons ha hc _ ih => exact .cons (h _ _ ha) hc ih

end Grammar

end SchemaLang
