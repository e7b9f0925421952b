import Mathlib.Data.List.DropRight
import SchemaLang.Text.Lines

namespace SchemaLang.Text

section DropWhile

variable {p : Char → Bool} {text : List Char}

theorem dropWhile_eq_self (h : ∀ c ∈ text.head?, p c = false) : text.dropWhile p = text := by
  cases text with
  | nil => rfl
  | cons c rest =>
    have hc : p c = false := h c rfl
    exact List.dropWhile_cons_of_neg (by simp [hc])

theorem head?_dropWhile (p : Char → Bool) (text : List Char) :
    ∀ c ∈ (text.dropWhile p).head?, p c = false := by
  intro c hc
  have first := List.head?_dropWhile_not p text
  rw [Option.mem_def.mp hc] at first
  exact first

theorem rdropWhile_eq_self (h : ∀ c ∈ text.getLast?, p c = false) : text.rdropWhile p = text := by
  rw [List.rdropWhile, dropWhile_eq_self (by simpa using h), List.reverse_reverse]

theorem getLast?_rdropWhile (p : Char → Bool) (text : List Char) :
    ∀ c ∈ (text.rdropWhile p).getLast?, p c = false := by
  intro c hc
  rw [List.rdropWhile, List.getLast?_reverse] at hc
  exact head?_dropWhile p _ c hc

theorem rdropWhile_append {space : List Char} (h : ∀ c ∈ space, p c) (text : List Char) :
    (text ++ space).rdropWhile p = text.rdropWhile p := by
  rw [List.rdropWhile, List.reverse_append,
    List.dropWhile_append_of_pos (by simpa using h), List.rdropWhile]

theorem prefix_rdropWhile {start : List Char} (h : start <+: text)
    (hlast : ∀ c ∈ start.getLast?, p c = false) : start <+: text.rdropWhile p := by
  obtain ⟨rest, rfl⟩ := h
  have kept : start.reverse.dropWhile p = start.reverse := dropWhile_eq_self (by simpa using hlast)
  rw [List.rdropWhile, List.reverse_append, List.dropWhile_append]
  split
  · simp [kept]
  · rw [List.reverse_append, List.reverse_reverse]
    exact List.prefix_append _ _

end DropWhile

theorem trim_eq_rdropWhile (text : List Char) :
    trim text = (text.dropWhile isWhiteSpace).rdropWhile isWhiteSpace := rfl

theorem mem_of_mem_trim {text : List Char} {c : Char} (h : c ∈ trim text) : c ∈ text := by
  rw [trim_eq_rdropWhile] at h
  exact (List.dropWhile_suffix _).subset ((List.rdropWhile_prefix _ _).subset h)

theorem trim_eq_self {text : List Char} (hfirst : ∀ c ∈ text.head?, isWhiteSpace c = false)
    (hlast : ∀ c ∈ text.getLast?, isWhiteSpace c = false) : trim text = text := by
  rw [trim_eq_rdropWhile, dropWhile_eq_self hfirst, rdropWhile_eq_self hlast]

theorem trim_trim (text : List Char) : trim (trim text) = trim text := by
  -- trimming the end leaves the first character, unless it leaves nothing
  have front : trim text <+: text.dropWhile isWhiteSpace := List.rdropWhile_prefix _ _
  refine trim_eq_self (fun c hc => ?_) (getLast?_rdropWhile _ _)
  obtain ⟨more, hmore⟩ := front
  apply head?_dropWhile isWhiteSpace text c
  rw [← hmore, List.head?_append, Option.mem_def.mp hc]
  rfl

theorem trim_space (text : List Char) : trim (' ' :: text) = trim text := by
  have blank : isWhiteSpace ' ' = true := by decide
  rw [trim, List.dropWhile_cons_of_pos blank, trim]

theorem trim_append {space : List Char} (h : ∀ c ∈ space, isWhiteSpace c) (text : List Char) :
    trim (text ++ space) = trim text := by
  rw [trim_eq_rdropWhile, trim_eq_rdropWhile, List.dropWhile_append]
  split
  · next hnil => rw [List.dropWhile_eq_nil_iff.mpr h, List.isEmpty_iff.mp hnil]
  · rw [rdropWhile_append h]

end SchemaLang.Text
