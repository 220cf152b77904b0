import SelectionCheck.Document.Cursor

/-!
# The search for a closing bracket

A list that is given up ends at its closing bracket, and `skipTo` searches for it. The search keeps
the closers that it awaits, innermost first. A closing bracket discards the closers before its own
kind, but not the one of its own kind: what a pair of brackets adds is still awaited behind the
pair.

So the search does not always end at the bracket that closes the list. The main statement says when
it does: behind tokens whose brackets match, it finds a bracket if and only if none of its kind is
awaited from them. Otherwise it goes on, and what it finds stands further on.
-/

namespace SelectionCheck

/-! ## Matching brackets -/

/-- The brackets among the tokens match. -/
inductive Token.Balanced : List Token → Prop
  | nil : Balanced []
  | plain {t : Token} {ts : List Token} (hopener : t.kind.closer? = none)
      (hcloser : t.kind.isCloser = false) (h : Balanced ts) : Balanced (t :: ts)
  | pair {o c : Token} {inner ts : List Token} (hpair : o.kind.closer? = some c.kind)
      (hinner : Balanced inner) (h : Balanced ts) : Balanced (o :: (inner ++ c :: ts))

theorem Token.balanced_two {o c : Token} (hpair : o.kind.closer? = some c.kind) :
    Balanced [o, c] :=
  .pair hpair .nil .nil

theorem Token.Kind.closer?_of_isCloser {k : Kind} (h : k.isCloser = true) : k.closer? = none := by
  cases k <;> first | rfl | cases h

theorem Token.Kind.isCloser_of_closer? {k k' : Kind} (h : k.closer? = some k') :
    k'.isCloser = true := by
  cases k <;> cases h <;> rfl

theorem Token.Kind.isCloser_eq_false {k k' : Kind} (h : k.closer? = some k') :
    k.isCloser = false := by
  cases k <;> first | rfl | cases h

namespace Grammar

variable {t o c : Token} {pending : List Token.Kind} {tokens inner after rest : List Token}
  {behind closing : Nat} {closer : Token.Kind}

/-! ## Awaited closers -/

def await (pending : List Token.Kind) (t : Token) : List Token.Kind :=
  match t.kind.closer? with
  | some closer => closer :: pending
  | none => if t.kind.isCloser then pending.dropWhile (· ≠ t.kind) else pending

/-- The closers that are awaited from the tokens, innermost first. -/
def awaited (tokens : List Token) : List Token.Kind :=
  tokens.foldl await []

theorem await_opener (h : o.kind.closer? = some closer) : await pending o = closer :: pending := by
  rw [await, h]

theorem await_plain (hopener : t.kind.closer? = none) (hcloser : t.kind.isCloser = false) :
    await pending t = pending := by
  rw [await, hopener, hcloser]
  rfl

theorem await_closer (h : t.kind.isCloser = true) :
    await pending t = pending.dropWhile (· ≠ t.kind) := by
  rw [await, Token.Kind.closer?_of_isCloser h, h]
  rfl

/-- The closers awaited from a pair of brackets whose closer is `k`, when `inside` are awaited from
the tokens between them. -/
def awaitedFromPair (k : Token.Kind) (inside : List Token.Kind) : List Token.Kind :=
  (inside ++ [k]).dropWhile (· ≠ k)

theorem getLast?_awaitedFromPair (k : Token.Kind) (inside : List Token.Kind) :
    (awaitedFromPair k inside).getLast? = some k := by
  induction inside with
  | nil => simp [awaitedFromPair]
  | cons k' inside ih =>
      rw [awaitedFromPair, List.cons_append, List.dropWhile_cons]
      split
      · exact ih
      · rw [← List.cons_append, List.getLast?_concat]

theorem mem_awaitedFromPair (k : Token.Kind) (inside : List Token.Kind) :
    k ∈ awaitedFromPair k inside :=
  List.mem_of_getLast? (getLast?_awaitedFromPair k inside)

/-- Only its own closer is awaited from a pair of brackets if none of this kind is awaited from
what stands between them. -/
theorem length_awaitedFromPair_eq_one_iff (k : Token.Kind) (inside : List Token.Kind) :
    (awaitedFromPair k inside).length = 1 ↔ k ∉ inside := by
  induction inside with
  | nil => simp [awaitedFromPair]
  | cons k' inside ih =>
      rw [awaitedFromPair, List.cons_append, List.dropWhile_cons]
      by_cases hk : k' = k
      · simp [hk]
      · rw [if_pos (by simpa using hk), ← awaitedFromPair, ih]
        simp [Ne.symm hk]

theorem dropWhile_inside (k : Token.Kind) (inside : List Token.Kind) :
    (inside ++ k :: pending).dropWhile (· ≠ k) = awaitedFromPair k inside ++ pending := by
  have hne := List.ne_nil_of_mem (mem_awaitedFromPair k inside)
  rw [← List.singleton_append, ← List.append_assoc, List.dropWhile_append, if_neg]
  · rfl
  · rw [List.isEmpty_iff]
    exact hne

theorem await_pair (hpair : o.kind.closer? = some c.kind)
    (hinner : inner.foldl await (c.kind :: pending) = awaited inner ++ c.kind :: pending) :
    await (inner.foldl await (await pending o)) c =
      awaitedFromPair c.kind (awaited inner) ++ pending := by
  rw [await_opener hpair, hinner, await_closer (Token.Kind.isCloser_of_closer? hpair),
    dropWhile_inside]

/-- Matching brackets discard nothing that was awaited before them. -/
theorem foldl_await_of_balanced (h : Token.Balanced tokens) :
    tokens.foldl await pending = awaited tokens ++ pending := by
  induction h generalizing pending with
  | nil => rfl
  | plain hopener hcloser _ ih =>
      rw [awaited, List.foldl_cons, List.foldl_cons, await_plain hopener hcloser,
        await_plain hopener hcloser]
      exact ih
  | @pair o c inner ts hpair _ _ ihinner ih =>
      have hrun : ∀ pending, (o :: (inner ++ c :: ts)).foldl await pending =
          awaited ts ++ (awaitedFromPair c.kind (awaited inner) ++ pending) := by
        intro pending
        rw [List.foldl_cons, List.foldl_append, List.foldl_cons, await_pair hpair ihinner, ih]
      rw [awaited, hrun, hrun, List.append_nil, List.append_assoc]

/-- The closer of a pair of brackets is awaited behind them, and behind matching brackets after
them. -/
theorem mem_awaited_of_pair (before : List Token) (hpair : o.kind.closer? = some c.kind)
    (hinner : Token.Balanced inner) (hafter : Token.Balanced after) :
    c.kind ∈ awaited (before ++ o :: (inner ++ c :: after)) := by
  rw [awaited, List.foldl_append, List.foldl_cons, List.foldl_append, List.foldl_cons,
    await_pair hpair (foldl_await_of_balanced hinner), foldl_await_of_balanced hafter]
  simp [mem_awaitedFromPair]

/-- What is awaited behind the tokens was awaited before them or closes a bracket among them. -/
theorem mem_foldl_await {k : Token.Kind} (h : k ∈ tokens.foldl await pending) :
    k ∈ pending ∨ ∃ o ∈ tokens, o.kind.closer? = some k := by
  induction tokens generalizing pending with
  | nil => exact .inl h
  | cons t ts ih =>
      rcases ih h with hpending | ⟨o, ho, hopens⟩
      · rw [await] at hpending
        split at hpending
        · next closer hopener =>
            rcases List.mem_cons.1 hpending with rfl | hpending
            · exact .inr ⟨t, List.mem_cons_self, hopener⟩
            · exact .inl hpending
        · split at hpending
          · exact .inl ((List.dropWhile_sublist _).mem hpending)
          · exact .inl hpending
      · exact .inr ⟨o, List.mem_cons_of_mem _ ho, hopens⟩

/-- The closer of the list is discarded last. -/
theorem eq_of_mem_getLast?_await (hpending : pending ≠ [])
    (h : ∀ k ∈ pending.getLast?, k = closer) :
    ∀ k ∈ (await pending t).getLast?, k = closer := by
  intro k hk
  refine h k ?_
  rw [await] at hk
  split at hk
  · rwa [List.getLast?_cons_of_ne_nil hpending] at hk
  · split at hk
    · obtain ⟨discarded, hsplit⟩ := List.dropWhile_suffix (l := pending) (· ≠ t.kind)
      rw [← hsplit, List.getLast?_append, Option.mem_def.1 hk, Option.some_or]
      rfl
    · exact hk

theorem kind_of_await_eq_singleton {k : Token.Kind} (hcloser : t.kind.isCloser = true)
    (h : await pending t = [k]) : k = t.kind := by
  have hhead := List.head?_dropWhile_not (· ≠ t.kind) pending
  rw [← await_closer hcloser, h] at hhead
  simpa using hhead

/-! ## The search -/

/-- One step of the search. It ends before a closing bracket that leaves one closer awaited. -/
theorem skipTo_cons (hpending : pending ≠ []) :
    skipTo pending behind (t :: rest) =
      if t.kind.isCloser = true ∧ (await pending t).length = 1 then
        (some t.start, ⟨t :: rest, behind⟩)
      else skipTo (await pending t) (behind + 1) rest := by
  obtain ⟨k, ks, rfl⟩ := List.exists_cons_of_ne_nil hpending
  rw [skipTo]
  split
  · next closer hopener =>
      rw [await_opener hopener, if_neg]
      rintro ⟨hcloser, -⟩
      rw [Token.Kind.closer?_of_isCloser hcloser] at hopener
      cases hopener
  · next hopener =>
      by_cases hcloser : t.kind.isCloser = true
      · rw [await_closer hcloser, if_pos hcloser]
        split
        · next hone => rw [if_pos ⟨hcloser, by rw [hone]; rfl⟩]
        · next hmany =>
            rw [if_neg]
            rintro ⟨-, hlength⟩
            obtain ⟨k', hone⟩ := List.length_eq_one_iff.1 hlength
            exact hmany k' hone
      · rw [await_plain hopener (eq_false_of_ne_true hcloser), if_neg hcloser,
          if_neg fun h => hcloser h.1]

/-- The search passes matching brackets. -/
theorem skipTo_append_of_balanced (h : Token.Balanced tokens) (hpending : pending ≠ []) :
    skipTo pending behind (tokens ++ rest) =
      skipTo (tokens.foldl await pending) (behind + tokens.length) rest := by
  induction h generalizing pending behind rest with
  | nil => rfl
  | @plain t ts hopener hcloser _ ih =>
      rw [List.cons_append, skipTo_cons hpending, if_neg (by simp [hcloser]), List.foldl_cons,
        await_plain hopener hcloser, ih hpending, List.length_cons, Nat.add_assoc, Nat.add_comm 1]
  | @pair o c inner ts hpair hinner _ ihinner ih =>
      have hawait : await (inner.foldl await (await pending o)) c =
          awaitedFromPair c.kind (awaited inner) ++ pending :=
        await_pair hpair (foldl_await_of_balanced hinner)
      have hopen : await pending o ≠ [] := by simp [await_opener hpair]
      have hinside : inner.foldl await (await pending o) ≠ [] := by
        simp [foldl_await_of_balanced hinner, hopen]
      -- The closer of the pair stays, in front of what was awaited before, so the pair is passed.
      have hkept := List.length_pos_of_mem (mem_awaitedFromPair c.kind (awaited inner))
      have hbefore := List.length_pos_iff.2 hpending
      have hmany : ¬ (awaitedFromPair c.kind (awaited inner) ++ pending).length = 1 := by
        rw [List.length_append]
        omega
      have hclosed : awaitedFromPair c.kind (awaited inner) ++ pending ≠ [] := by simp [hpending]
      calc skipTo pending behind (o :: (inner ++ c :: ts) ++ rest)
        _ = skipTo (await pending o) (behind + 1) (inner ++ c :: (ts ++ rest)) := by
            rw [List.cons_append, skipTo_cons hpending, List.append_assoc, List.cons_append,
              if_neg (by simp [Token.Kind.isCloser_eq_false hpair])]
        _ = skipTo (inner.foldl await (await pending o)) (behind + 1 + inner.length)
              (c :: (ts ++ rest)) := ihinner hopen
        _ = skipTo (awaitedFromPair c.kind (awaited inner) ++ pending)
              (behind + 1 + inner.length + 1) (ts ++ rest) := by
            rw [skipTo_cons hinside, hawait, if_neg fun h => hmany h.2]
        _ = skipTo ((o :: (inner ++ c :: ts)).foldl await pending)
              (behind + 1 + inner.length + 1 + ts.length) rest := by
            rw [ih hclosed, List.foldl_cons, List.foldl_append, List.foldl_cons, hawait]
        _ = _ := by
            congr 1
            simp only [List.length_cons, List.length_append]
            omega

/-- A bracket that the search finds has the kind that is discarded last. The search ends before
it. -/
theorem skipTo_found (h : ∀ k ∈ pending.getLast?, k = closer)
    (hclosing : closing ∈ (skipTo pending behind tokens).1) :
    ∃ before t after, tokens = before ++ t :: after ∧ t.kind = closer ∧ t.start = closing ∧
      (skipTo pending behind tokens).2 = ⟨t :: after, behind + before.length⟩ := by
  induction tokens generalizing pending behind with
  | nil => cases pending <;> simp [skipTo] at hclosing
  | cons t rest ih =>
      by_cases hpending : pending = []
      · subst hpending
        simp [skipTo] at hclosing
      · have hlast := eq_of_mem_getLast?_await (t := t) hpending h
        rw [skipTo_cons hpending] at hclosing ⊢
        split at hclosing
        · next hends =>
            obtain ⟨hcloser, hlength⟩ := hends
            obtain ⟨k, hone⟩ := List.length_eq_one_iff.1 hlength
            have hkind : k = t.kind := kind_of_await_eq_singleton hcloser hone
            rw [hone] at hlast
            cases hclosing
            refine ⟨[], t, rest, rfl, hkind ▸ hlast k rfl, rfl, ?_⟩
            rw [if_pos ⟨hcloser, hlength⟩]
            rfl
        · next hgoes =>
            obtain ⟨before, u, after, hrest, hkind, hstart, hnext⟩ := ih hlast hclosing
            refine ⟨t :: before, u, after, by rw [hrest]; rfl, hkind, hstart, ?_⟩
            rw [if_neg hgoes, hnext, List.length_cons, Nat.add_assoc, Nat.add_comm 1]

/-- Behind matching brackets the search comes to a bracket of the kind that it searches for, and
passes it if another of this kind is awaited. -/
theorem skipTo_append_closer {skipped : List Token} (hskipped : Token.Balanced skipped)
    (ht : t.kind.isCloser = true) :
    skipTo [t.kind] behind (skipped ++ t :: rest) =
      if t.kind ∈ awaited skipped then
        skipTo (awaitedFromPair t.kind (awaited skipped)) (behind + skipped.length + 1) rest
      else (some t.start, ⟨t :: rest, behind + skipped.length⟩) := by
  rw [skipTo_append_of_balanced hskipped (List.cons_ne_nil _ _), foldl_await_of_balanced hskipped,
    skipTo_cons (by simp), await_closer ht, ← awaitedFromPair]
  simp only [ht, true_and, length_awaitedFromPair_eq_one_iff, ite_not]

/-- Behind matching brackets the search comes to a bracket of the kind that it searches for. It ends
there if and only if none of this kind is awaited from them. This is so if they open no bracket of
this kind, and not so if such a pair stands among them with matching brackets behind it. Where the
search goes on, what it finds stands further on. -/
theorem skipTo_balanced_iff {skipped : List Token} (hskipped : Token.Balanced skipped)
    (ht : t.kind.isCloser = true) (behind : Nat) (rest : List Token) :
    (t.kind ∉ awaited skipped →
      skipTo [t.kind] behind (skipped ++ t :: rest) =
        (some t.start, ⟨t :: rest, behind + skipped.length⟩)) ∧
    (t.kind ∈ awaited skipped →
      ∀ closing ∈ (skipTo [t.kind] behind (skipped ++ t :: rest)).1,
        ∃ u ∈ rest, u.kind = t.kind ∧ u.start = closing) ∧
    ((∀ u ∈ rest, t.start < u.start) →
      ((skipTo [t.kind] behind (skipped ++ t :: rest)).1 = some t.start ↔
        t.kind ∉ awaited skipped)) ∧
    ((∀ o ∈ skipped, o.kind.closer? ≠ some t.kind) → t.kind ∉ awaited skipped) ∧
    ∀ before o inner c after, skipped = before ++ o :: (inner ++ c :: after) →
      o.kind.closer? = some c.kind → Token.Balanced inner → Token.Balanced after →
      c.kind = t.kind → t.kind ∈ awaited skipped := by
  have hfound : t.kind ∉ awaited skipped → skipTo [t.kind] behind (skipped ++ t :: rest) =
      (some t.start, ⟨t :: rest, behind + skipped.length⟩) := by
    intro hmem
    rw [skipTo_append_closer hskipped ht, if_neg hmem]
  have hmissed : t.kind ∈ awaited skipped →
      ∀ closing ∈ (skipTo [t.kind] behind (skipped ++ t :: rest)).1,
        ∃ u ∈ rest, u.kind = t.kind ∧ u.start = closing := by
    intro hmem closing hclosing
    rw [skipTo_append_closer hskipped ht, if_pos hmem] at hclosing
    have hlast : ∀ k ∈ (awaitedFromPair t.kind (awaited skipped)).getLast?, k = t.kind := by
      simp [getLast?_awaitedFromPair]
    obtain ⟨before, u, after, hrest, hkind, hstart, -⟩ := skipTo_found hlast hclosing
    exact ⟨u, by simp [hrest], hkind, hstart⟩
  refine ⟨hfound, hmissed, fun hlater => ⟨?_, ?_⟩, ?_, ?_⟩
  · intro hclosing hmem
    obtain ⟨u, hu, -, hstart⟩ := hmissed hmem t.start hclosing
    exact absurd hstart (Nat.ne_of_gt (hlater u hu))
  · intro hmem
    rw [hfound hmem]
  · intro hnone hmem
    rcases mem_foldl_await hmem with hnil | ⟨o, ho, hopens⟩
    · cases hnil
    · exact hnone o ho hopens
  · rintro before o inner c after rfl hpair hinner hafter hkind
    rw [← hkind]
    exact mem_awaited_of_pair before hpair hinner hafter

def enclosedPair : List Token :=
  [⟨.lbracket, "[", 0⟩, ⟨.lparen, "(", 1⟩, ⟨.rparen, ")", 2⟩, ⟨.rbracket, "]", 3⟩]

theorem enclosedPair_balanced : Token.Balanced enclosedPair :=
  .pair rfl (Token.balanced_two (o := ⟨.lparen, "(", 1⟩) (c := ⟨.rparen, ")", 2⟩) rfl) .nil

/-- The square bracket discards the parenthesis between the brackets, so the search ends at the
parenthesis behind them. -/
theorem skipTo_enclosedPair :
    Token.Balanced enclosedPair ∧ Token.Kind.rparen ∉ awaited enclosedPair ∧
      skipTo [.rparen] 0 (enclosedPair ++ [⟨.rparen, ")", 4⟩]) =
        (some 4, ⟨[⟨.rparen, ")", 4⟩], 4⟩) := by
  have hmem : Token.Kind.rparen ∉ awaited enclosedPair := by decide
  exact ⟨enclosedPair_balanced, hmem,
    (skipTo_balanced_iff (t := ⟨.rparen, ")", 4⟩) enclosedPair_balanced rfl 0 []).1 hmem⟩

/-- The tokens behind the first item of `schema { query: Q ! { } }`. -/
def strayPair : List Token :=
  [⟨.bang, "!", 18⟩, ⟨.lbrace, "\x7b", 20⟩, ⟨.rbrace, "\x7d", 22⟩]

theorem skipTo_strayPair :
    Token.Balanced strayPair ∧
      (skipTo [.rbrace] 6 (strayPair ++ [⟨.rbrace, "\x7d", 24⟩])).1 = none :=
  ⟨.plain rfl rfl (Token.balanced_two rfl), by decide⟩

end Grammar

end SelectionCheck
