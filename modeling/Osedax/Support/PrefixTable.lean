import Mathlib.Data.List.Infix

/-!
# Longest-prefix tables

A table is a list of entries, each with a key, and an entry covers a word when its key is a prefix
of the word.  The keys that cover one word form a chain, so the longest of them (`IsDeepest`)
extends every other, and covering the word is the same as covering the deepest key.
-/

namespace PrefixTable

variable {ε κ : Type*} {key : ε → List κ} {table : List ε} {word : List κ} {e f : ε}

/-- `e` is an entry that covers the word, with the longest key among those. -/
structure IsDeepest (key : ε → List κ) (table : List ε) (word : List κ) (e : ε) : Prop where
  mem : e ∈ table
  covers : key e <+: word
  length_le : ∀ f ∈ table, key f <+: word → (key f).length ≤ (key e).length

theorem IsDeepest.isPrefix_key (h : IsDeepest key table word e) (hf : f ∈ table)
    (hcov : key f <+: word) : key f <+: key e :=
  List.prefix_of_prefix_length_le hcov h.covers (h.length_le f hf hcov)

theorem IsDeepest.covers_iff (h : IsDeepest key table word e) (hf : f ∈ table) :
    key f <+: word ↔ key f <+: key e :=
  ⟨h.isPrefix_key hf, fun hpre => hpre.trans h.covers⟩

end PrefixTable
