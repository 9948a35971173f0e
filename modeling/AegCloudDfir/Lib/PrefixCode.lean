import Mathlib.Data.List.Basic
import Mathlib.Order.Basic

/-!
# Codes that can be read back from the left

A serializer is injective because a reader walking its output from the left
always knows where one piece ends and the next begins. This file states that
once, for any alphabet `σ` and any type of values:

* `ReadsBack K enc a` — reading `enc a ++ r` determines both `a` and the rest
  `r`, as long as the rest is one of the continuations `K`. Digit strings need
  a continuation that stops them; quoted strings and bracketed lists do not.
* `ReadsBack.pair`, `ReadsBack.prefixed`, `ReadsBack.comp` — how codes compose.
* `readsBack_of_alphabet` — a token ends where its alphabet ends.
* `readsBack_terminated`, `readsBack_joined` — lists with a closing symbol, with
  or without a separator.

Everything is stated at one value `a`, against every other value, so that an
induction over trees can use it at the children only.
-/

namespace PrefixCode

universe u v w

variable {σ : Type u} {α : Type v} {β : Type w}

/-- Reading `enc a` from the left determines `a` and what follows it, for every
continuation in `K`. -/
def ReadsBack (K : List σ → Prop) (enc : α → List σ) (a : α) : Prop :=
  ∀ b r s, K r → K s → enc a ++ r = enc b ++ s → a = b ∧ r = s

/-- The continuations that are empty or start with a symbol of `D`. -/
def Stops (D : σ → Prop) (r : List σ) : Prop := ∀ c ∈ r.head?, D c

/-- Every continuation. -/
def Anything : List σ → Prop := fun _ => True

@[simp] theorem anything (r : List σ) : Anything r := trivial

@[simp] theorem stops_nil {D : σ → Prop} : Stops D [] := by simp [Stops]

@[simp] theorem stops_cons {D : σ → Prop} {c : σ} {r : List σ} :
    Stops D (c :: r) ↔ D c := by simp [Stops]

/-! ## Composition -/

variable {K K' : List σ → Prop} {enc : α → List σ} {a : α}

/-- Fewer continuations are easier. -/
theorem ReadsBack.mono (h : ReadsBack K enc a) (hK : ∀ r, K' r → K r) :
    ReadsBack K' enc a :=
  fun b r s hr hs => h b r s (hK r hr) (hK s hs)

/-- A code that can be read back is injective. -/
theorem ReadsBack.inj {b : α} (h : ReadsBack K enc a) (hK : K [])
    (he : enc a = enc b) : a = b :=
  (h b [] [] hK hK (by rw [he])).1

/-- Reading back through an injective change of representation. -/
theorem ReadsBack.comp {enc' : β → List σ} {f : α → β}
    (h : ReadsBack K enc' (f a)) (hf : Function.Injective f) :
    ReadsBack K (fun x => enc' (f x)) a := by
  intro b r s hr hs he
  obtain ⟨hab, hrs⟩ := h (f b) r s hr hs he
  exact ⟨hf hab, hrs⟩

/-- A fixed prefix does not get in the way. -/
theorem ReadsBack.prefixed (p : List σ) (h : ReadsBack K enc a) :
    ReadsBack K (fun x => p ++ enc x) a := by
  intro b r s hr hs he
  rw [List.append_assoc, List.append_assoc] at he
  exact h b r s hr hs (List.append_cancel_left he)

/-- Two codes in a row: the first must stop before the second. -/
theorem ReadsBack.pair {K₁ : List σ → Prop} {enc₁ : α → List σ} {enc₂ : β → List σ}
    {b : β} (h₁ : ReadsBack K₁ enc₁ a) (h₂ : ReadsBack K enc₂ b)
    (hK : ∀ y r, K r → K₁ (enc₂ y ++ r)) :
    ReadsBack K (fun p : α × β => enc₁ p.1 ++ enc₂ p.2) (a, b) := by
  rintro ⟨a', b'⟩ r s hr hs he
  rw [List.append_assoc, List.append_assoc] at he
  obtain ⟨rfl, he'⟩ := h₁ a' _ _ (hK b r hr) (hK b' s hs) he
  obtain ⟨rfl, rfl⟩ := h₂ b' r s hr hs he'
  exact ⟨rfl, rfl⟩

/-! ## Tokens -/

/-- Two words over an alphabet, each followed by something outside it, agree
where the alphabet ends. -/
theorem append_inj_of_alphabet {A : σ → Prop} :
    ∀ {x y r s : List σ}, (∀ c ∈ x, A c) → (∀ c ∈ y, A c) →
      Stops (fun c => ¬ A c) r → Stops (fun c => ¬ A c) s →
      x ++ r = y ++ s → x = y ∧ r = s
  | [], [], _, _, _, _, _, _, he => ⟨rfl, he⟩
  | [], c :: y, r, s, _, hy, hr, _, he => by
      rw [List.nil_append, List.cons_append] at he
      rw [he, stops_cons] at hr
      exact absurd (hy c (List.mem_cons_self ..)) hr
  | c :: x, [], r, s, hx, _, _, hs, he => by
      rw [List.nil_append, List.cons_append] at he
      rw [← he, stops_cons] at hs
      exact absurd (hx c (List.mem_cons_self ..)) hs
  | c :: x, d :: y, r, s, hx, hy, hr, hs, he => by
      rw [List.cons_append, List.cons_append, List.cons.injEq] at he
      obtain ⟨rfl, he⟩ := he
      obtain ⟨rfl, rfl⟩ := append_inj_of_alphabet
        (fun e h => hx e (List.mem_cons_of_mem _ h))
        (fun e h => hy e (List.mem_cons_of_mem _ h)) hr hs he
      exact ⟨rfl, rfl⟩

/-- Reading from the left, a word without a separator ends at the first one. -/
theorem first_inj {a : σ} {x y s t : List σ} (hx : a ∉ x) (hy : a ∉ y)
    (h : x ++ a :: s = y ++ a :: t) : x = y ∧ s = t := by
  have hstop : ∀ t : List σ, Stops (fun c => ¬ c ≠ a) (a :: t) :=
    fun t => stops_cons.mpr (not_not.mpr rfl)
  have halphabet : ∀ {z : List σ}, a ∉ z → ∀ c ∈ z, c ≠ a :=
    fun hz c hc heq => hz (heq ▸ hc)
  obtain ⟨hxy, hst⟩ :=
    append_inj_of_alphabet (halphabet hx) (halphabet hy) (hstop s) (hstop t) h
  exact ⟨hxy, (List.cons.inj hst).2⟩

/-- Reading from the right, it starts behind the last one. -/
theorem last_inj {a : σ} {x y s t : List σ} (hx : a ∉ x) (hy : a ∉ y)
    (h : s ++ a :: x = t ++ a :: y) : s = t ∧ x = y := by
  have hreverse : ∀ s t : List σ,
      (s ++ a :: t).reverse = t.reverse ++ a :: s.reverse := by
    intro s t
    simp
  have h := congrArg List.reverse h
  rw [hreverse, hreverse] at h
  obtain ⟨hlast, hfirst⟩ := first_inj (mt List.mem_reverse.mp hx)
    (mt List.mem_reverse.mp hy) h
  exact ⟨List.reverse_injective hfirst, List.reverse_injective hlast⟩

/-- A word without the separator stands on one side of it. -/
theorem infix_separated {a : σ} {w x y : List σ} (ha : a ∉ w) (hw : w ≠ []) :
    w <:+: x ++ a :: y ↔ w <:+: x ∨ w <:+: y := by
  refine ⟨?_, ?_⟩
  · rintro ⟨s, t, h⟩
    rcases List.append_eq_append_iff.mp h with ⟨r, rfl, -⟩ | ⟨r, hsw, hr⟩
    · exact .inl ⟨s, r, rfl⟩
    -- the separator is behind `x`
    rcases List.append_eq_append_iff.mp hsw with ⟨u, hx, hu⟩ | ⟨u, rfl, rfl⟩
    · cases r with
      | nil =>
        rw [List.append_nil] at hsw
        exact .inl ⟨s, [], by rw [hsw, List.append_nil]⟩
      | cons b r =>
        obtain ⟨rfl, -⟩ := List.cons.inj hr
        exact absurd (hu ▸ List.mem_append_right u List.mem_cons_self) ha
    · cases u with
      | nil =>
        obtain ⟨b, w, rfl⟩ := List.exists_cons_of_ne_nil hw
        obtain ⟨rfl, -⟩ := List.cons.inj hr
        exact absurd List.mem_cons_self ha
      | cons b u =>
        obtain ⟨-, rfl⟩ := List.cons.inj hr
        exact .inr ⟨u, t, rfl⟩
  · rintro (h | h)
    · exact h.trans (List.infix_append' [] x (a :: y))
    · exact h.trans ⟨x ++ [a], [], by simp⟩

/-- **Tokens.** An injective code over an alphabet reads back before anything
outside that alphabet. -/
theorem readsBack_of_alphabet {A : σ → Prop} (hinj : Function.Injective enc)
    (hA : ∀ x, ∀ c ∈ enc x, A c) (hK : ∀ r, K r → Stops (fun c => ¬ A c) r) (a : α) :
    ReadsBack K enc a := by
  intro b r s hr hs he
  obtain ⟨hab, hrs⟩ := append_inj_of_alphabet (hA a) (hA b) (hK r hr) (hK s hs) he
  exact ⟨hinj hab, hrs⟩

/-- A code with a left inverse that also returns the rest reads back. -/
theorem readsBack_of_decode (dec : List σ → Option (α × List σ))
    (hdec : ∀ x r, K r → dec (enc x ++ r) = some (x, r)) (a : α) : ReadsBack K enc a := by
  intro b r s hr hs he
  have h := hdec a r hr
  rw [he, hdec b s hs] at h
  cases h
  exact ⟨rfl, rfl⟩

/-! ## Lists with a closing symbol -/

/-- **Terminated lists.** Elements one after another up to a closing symbol that
no element's code starts with. -/
theorem readsBack_terminated {close : σ}
    (hopen : ∀ (x : α) (t : List σ), (enc x ++ t).head? ≠ some close)
    (hK : ∀ (l : List α) (t : List σ), K (l.flatMap enc ++ close :: t)) {xs : List α}
    (hxs : ∀ x ∈ xs, ReadsBack K enc x) :
    ReadsBack Anything (fun ys : List α => ys.flatMap enc ++ [close]) xs := by
  induction xs with
  | nil =>
    rintro (_ | ⟨y, ys⟩) r s _ _ he
    · simpa using he
    · simp only [List.flatMap_nil, List.flatMap_cons, List.append_assoc, List.nil_append,
        List.cons_append] at he
      exact absurd (congrArg List.head? he).symm (hopen y _)
  | cons x xs ih =>
    rintro (_ | ⟨y, ys⟩) r s hr hs he
    · simp only [List.flatMap_nil, List.flatMap_cons, List.append_assoc, List.nil_append,
        List.cons_append] at he
      exact absurd (congrArg List.head? he) (hopen x _)
    · simp only [List.flatMap_cons, List.append_assoc, List.nil_append,
        List.cons_append] at he
      obtain ⟨rfl, hrest⟩ := hxs x (List.mem_cons_self ..) y _ _ (hK xs r) (hK ys s) he
      obtain ⟨rfl, rfl⟩ := ih (fun z hz => hxs z (List.mem_cons_of_mem _ hz)) ys r s hr hs
        (by simpa using hrest)
      exact ⟨rfl, rfl⟩

/-- The parts put one after another with a separator between them. -/
def join (sep : List σ) : List (List σ) → List σ
  | [] => []
  | [x] => x
  | x :: y :: rest => x ++ sep ++ join sep (y :: rest)

@[simp] theorem join_nil (sep : List σ) : join sep [] = [] := rfl

@[simp] theorem join_singleton (sep x : List σ) : join sep [x] = x := rfl

/-- Every part after the first comes with its separator. -/
theorem join_cons (sep x : List σ) (xs : List (List σ)) :
    join sep (x :: xs) = x ++ xs.flatMap fun y => sep ++ y := by
  induction xs generalizing x with
  | nil => simp
  | cons y ys ih => simp [join, ih, List.append_assoc]

/-- What is written after the first element of a separated list: every further
element behind its separator, then the closing symbol. -/
def tail (sep close : σ) (enc : α → List σ) (ys : List α) : List σ :=
  (ys.flatMap fun y => [sep] ++ enc y) ++ [close]

/-- A tail starts with the separator or the closing symbol. -/
theorem stops_tail (sep close : σ) (enc : α → List σ) (ys : List α) (t : List σ) :
    Stops (fun c => c = sep ∨ c = close) ((ys.flatMap fun y => [sep] ++ enc y) ++ close :: t) := by
  rcases ys with _ | ⟨y, ys⟩ <;> simp

theorem join_map_append_close (sep close : σ) (enc : α → List σ) (y : α) (ys : List α) :
    join [sep] ((y :: ys).map enc) ++ [close] = enc y ++ tail sep close enc ys := by
  rw [List.map_cons, join_cons, List.flatMap_map, List.append_assoc]
  rfl

theorem readsBack_tail {sep close : σ} (hne : sep ≠ close) {xs : List α}
    (hxs : ∀ x ∈ xs, ReadsBack (Stops fun c => c = sep ∨ c = close) enc x) :
    ReadsBack Anything (tail sep close enc) xs :=
  readsBack_terminated (fun _ _ => by simpa using hne) (stops_tail sep close enc)
    fun x hx => (hxs x hx).prefixed [sep]

/-- **Separated lists.** If every element reads back before a separator or the
closing symbol, and no element's code starts like the closing symbol, the joined
list with its closing symbol reads back before anything. -/
theorem readsBack_joined {sep close : σ} (hne : sep ≠ close)
    (hopen : ∀ (x : α) (t : List σ), (enc x ++ t).head? ≠ some close) {xs : List α}
    (hxs : ∀ x ∈ xs, ReadsBack (Stops fun c => c = sep ∨ c = close) enc x) :
    ReadsBack Anything (fun ys : List α => join [sep] (ys.map enc) ++ [close]) xs := by
  have hstop : ∀ (ys : List α) (t : List σ),
      Stops (fun c => c = sep ∨ c = close) (tail sep close enc ys ++ t) := by
    intro ys t
    rw [tail, List.append_assoc]
    exact stops_tail sep close enc ys t
  rcases xs with _ | ⟨x, xs⟩ <;> rintro (_ | ⟨y, ys⟩) r s hr hs he
  · simpa using he
  · -- an empty list closes where the other one opens its first element
    simp only [join_map_append_close, List.append_assoc] at he
    exact absurd (congrArg List.head? he).symm (hopen y _)
  · simp only [join_map_append_close, List.append_assoc] at he
    exact absurd (congrArg List.head? he) (hopen x _)
  · simp only [join_map_append_close, List.append_assoc] at he
    obtain ⟨rfl, hrest⟩ := hxs x (List.mem_cons_self ..) y _ _ (hstop xs r) (hstop ys s) he
    obtain ⟨rfl, rfl⟩ := readsBack_tail hne
      (fun z hz => hxs z (List.mem_cons_of_mem _ hz)) ys r s hr hs hrest
    exact ⟨rfl, rfl⟩

end PrefixCode
