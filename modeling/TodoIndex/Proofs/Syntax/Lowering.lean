import TodoIndex.Proofs.Syntax.Positions
import TodoIndex.Proofs.Syntax.Trivia

/-! # Line feeds in front of a source

Line feeds in front of a text are blanks, so a reader that passes over the blanks first reads the
same behind them.  `Lowered k ts' ts` says what becomes of the trees: `ts'` has the comments of `ts`,
each `k` rows lower.  A reader is `Settled` if it leads to such trees and to the same rest; a `Blind`
one may also have read nothing yet.
-/

namespace TodoIndex

namespace Syntax

/-- The same comment, some rows lower. -/
def Comment.lowered (k : Nat) (c : Comment) : Comment :=
  { c with row := c.row + k }

namespace Tree

variable {k row : Nat} {outside : List Around} {ts ts' us : List Tree}

theorem pendingComments_lowered (k row : Nat) (pending : List (List Around × Tree)) :
    pendingComments (row + k) pending = (pendingComments row pending).map (Comment.lowered k) := by
  induction pending generalizing row with
  | nil => rfl
  | cons entry more ih =>
      obtain ⟨outside, t⟩ := entry
      have hcomment : ∀ p, t.commentFrom (row + k) outside p =
          (t.commentFrom row outside p).lowered k := fun p => by
        simp only [commentFrom, Comment.lowered, Nat.add_right_comm]
      rw [pendingComments, pendingComments, List.map_append, Nat.add_right_comm, ih, commentsFrom,
        commentsFrom, List.map_map]
      exact congrArg (· ++ _) (List.map_congr_left fun p _ => hcomment p)

/-- The comments with a text that a row of trees has. -/
def visible (row : Nat) (outside : List Around) (ts : List Tree) : List Comment :=
  (pendingComments row (entering outside ts)).filter fun c => !c.raw.isEmpty

theorem visible_lowered (k row : Nat) (outside : List Around) (ts : List Tree) :
    visible (row + k) outside ts = (visible row outside ts).map (Comment.lowered k) := by
  rw [visible, pendingComments_lowered, List.filter_map]
  rfl

theorem visible_cons (t : Tree) : visible row outside (t :: ts) =
    (t.commentsFrom row outside).filter (fun c => !c.raw.isEmpty) ++
      visible (row + Text.lineFeeds t.text) outside ts := by
  rw [visible, entering, pendingComments, List.filter_append]
  rfl

theorem visible_node {kind : Kind} (hkind : kind ≠ .comment) (name : Option (List Char)) :
    visible row outside [node kind name ts] = visible row (⟨kind, name⟩ :: outside) ts := by
  rw [visible_cons, commentsFrom_node hkind, ← visible]
  exact List.append_nil _

theorem visible_append : visible row outside (ts ++ us) =
    visible row outside ts ++ visible (row + Text.lineFeeds (textAll ts)) outside us := by
  induction ts generalizing row with
  | nil => rfl
  | cons t ts ih =>
      rw [List.cons_append, visible_cons, visible_cons, ih, textAll_cons, Text.lineFeeds_append,
        List.append_assoc, Nat.add_assoc]

theorem text_eq_nil_of_at? {t u : Tree} {p : Position} (ht : t.text = []) (h : t.at? p = some u) :
    u.text = [] := by
  obtain ⟨after, hafter⟩ := exists_after h
  rw [ht, eq_comm, List.append_eq_nil_iff, List.append_eq_nil_iff] at hafter
  exact hafter.1.2

/-- Trees without text have no comments with a text. -/
theorem visible_of_textless (h : textAll ts = []) : visible row outside ts = [] := by
  induction ts generalizing row with
  | nil => rfl
  | cons t ts ih =>
      rw [textAll_cons, List.append_eq_nil_iff] at h
      rw [visible_cons, ih h.2, List.append_nil, List.filter_eq_nil_iff]
      intro c hc
      obtain ⟨p, hp, rfl⟩ := List.mem_map.mp hc
      obtain ⟨u, hu, -⟩ := (mem_spots_iff.mp hp).comment
      have hraw : t.textAt p = [] := by
        rw [textAt, hu]
        exact text_eq_nil_of_at? h.1 hu
      simp [commentFrom, hraw]

mutual

theorem spansText_of_text_ne_nil : (t : Tree) → t.text ≠ [] → t.spansText = true
  | .token s, h => by
      cases s with
      | nil => exact absurd (text_token []) h
      | cons c s => rfl
  | .node _ _ children, h => by
      rw [text_node] at h
      exact spansTextAny_of_textAll_ne_nil children h

theorem spansTextAny_of_textAll_ne_nil : (ts : List Tree) → textAll ts ≠ [] → spansTextAny ts = true
  | [], h => absurd textAll_nil h
  | t :: ts, h => by
      rw [spansTextAny, Bool.or_eq_true]
      by_cases ht : t.text = []
      · rw [textAll_cons, ht, List.nil_append] at h
        exact .inr (spansTextAny_of_textAll_ne_nil ts h)
      · exact .inl (spansText_of_text_ne_nil t ht)

end

/-- One row of trees has the comments of another, each some rows lower. -/
structure Lowered (k : Nat) (ts' ts : List Tree) : Prop where
  feeds : Text.lineFeeds (textAll ts') = Text.lineFeeds (textAll ts) + k
  comments : ∀ row outside, visible row outside ts' = visible (row + k) outside ts

namespace Lowered

theorem append (h : Lowered k ts' ts) (us : List Tree) : Lowered k (ts' ++ us) (ts ++ us) where
  feeds := by
    rw [textAll_append, textAll_append, Text.lineFeeds_append, Text.lineFeeds_append, h.feeds]
    omega
  comments row outside := by
    rw [visible_append, visible_append, h.comments, h.feeds, Nat.add_assoc row k, Nat.add_comm k]

theorem append_textless (h : Lowered k ts' ts) (hus : textAll us = []) :
    Lowered k (ts' ++ us) ts where
  feeds := by rw [textAll_append, hus, List.append_nil, h.feeds]
  comments row outside := by
    rw [visible_append, visible_of_textless hus, List.append_nil, h.comments]

theorem visible_token (s : List Char) :
    visible row outside (.token s :: ts) = visible (row + Text.lineFeeds s) outside ts := by
  rw [visible_cons, text_token]
  rfl

theorem lineFeeds_replicate (k : Nat) : Text.lineFeeds (List.replicate k '\n') = k :=
  List.count_replicate_self

theorem of_token (k : Nat) (s : List Char) (ts : List Tree) :
    Lowered k (.token (List.replicate k '\n' ++ s) :: ts) (.token s :: ts) where
  feeds := by
    simp only [textAll_cons, text_token, Text.lineFeeds_append, lineFeeds_replicate]
    omega
  comments row outside := by
    rw [visible_token, visible_token, Text.lineFeeds_append, lineFeeds_replicate, Nat.add_assoc]

theorem of_feeds (k : Nat) (ts : List Tree) :
    Lowered k (.token (List.replicate k '\n') :: ts) ts where
  feeds := by
    rw [textAll_cons, text_token, Text.lineFeeds_append, lineFeeds_replicate, Nat.add_comm]
  comments row outside := by
    rw [visible_token, lineFeeds_replicate]

end Lowered

end Tree

namespace Parser

open Tree (Lowered)

variable {α β : Type} {k : Nat} {s s' : List Char}

/-! ## Readers that pass over the blanks -/

/-- Two results of readers: both fail, or both come to the same place with the same value. -/
inductive Together (k : Nat) : Option (Step α s') → Option (Step α s) → Prop where
  | failed : Together k none none
  | passed {step' : Step α s'} {step : Step α s} (value : step'.value = step.value)
      (rest : step'.rest = step.rest) (output : Lowered k step'.output step.output) :
      Together k (some step') (some step)

/-- From the same place on the same is read. -/
theorem Together.bind {p : Parser α} (f : α → Parser β) (h : Together k (p s') (p s)) :
    Together k ((p >>= f) s') ((p >>= f) s) := by
  rw [bind_apply, bind_apply]
  generalize p s' = result', p s = result at h
  cases h with
  | failed => exact .failed
  | @passed step' step hvalue hrest houtput =>
      obtain ⟨value', output', rest', whole'⟩ := step'
      obtain ⟨value, output, rest, whole⟩ := step
      change value' = value at hvalue
      change rest' = rest at hrest
      subst hvalue hrest
      change Together k ((f value' rest').map _) ((f value' rest').map _)
      cases f value' rest' with
      | none => exact .failed
      | some next => exact .passed rfl rfl (houtput.append next.output)

theorem Together.orElse {p q : Parser α} (hp : Together k (p s') (p s))
    (hq : Together k (q s') (q s)) :
    Together k (Parser.orElse p q s') (Parser.orElse p q s) := by
  unfold Parser.orElse
  generalize p s' = result', p s = result at hp
  cases hp with
  | failed => exact hq
  | passed hvalue hrest houtput => exact .passed hvalue hrest houtput

/-- A reader that line feeds in front of a text do not matter to. -/
class Settled (p : Parser α) : Prop where
  read : ∀ k, k ≠ 0 → ∀ s, Together k (p (List.replicate k '\n' ++ s)) (p s)

/-- A reader that line feeds in front of a text do not matter to, or that leaves them unread. -/
class Blind (p : Parser α) : Prop where
  read : ∀ k, k ≠ 0 → ∀ s, Together k (p (List.replicate k '\n' ++ s)) (p s) ∨
    ∃ a, p (List.replicate k '\n' ++ s) = some ⟨a, [], List.replicate k '\n' ++ s, by simp⟩ ∧
      p s = some ⟨a, [], s, by simp⟩

theorem lengthWhile_feeds (k : Nat) (s : List Char) :
    lengthWhile isSpacing (List.replicate k '\n' ++ s) = k + lengthWhile isSpacing s := by
  have hall : ∀ c ∈ List.replicate k '\n', isSpacing c = true := fun c hc => by
    rw [List.eq_of_mem_replicate hc]
    decide
  rw [lengthWhile, List.takeWhile_append_of_pos hall, List.length_append, List.length_replicate]
  rfl

/-- The blanks and comments behind line feeds are those without them. -/
instance settled_trivia (lexis : Lexis) : Settled lexis.trivia where
  read k hk s := by
    have hlength := lengthWhile_feeds k s
    have hdrop : (List.replicate k '\n' ++ s).drop (k + lengthWhile isSpacing s) =
        s.drop (lengthWhile isSpacing s) := by
      rw [← List.drop_drop, List.drop_left' (List.length_replicate ..)]
    have htake : (List.replicate k '\n' ++ s).take (k + lengthWhile isSpacing s) =
        List.replicate k '\n' ++ s.take (lengthWhile isSpacing s) := by
      rw [List.take_append, List.length_replicate, Nat.add_sub_cancel_left,
        List.take_of_length_le (by simp)]
    obtain ⟨houtput, hrest⟩ :=
      lexis.rounds_gap_of_blanks (s := List.replicate k '\n' ++ s) (by omega)
    rw [hlength, hdrop] at houtput hrest
    rw [htake] at houtput
    rw [lexis.trivia_apply, lexis.trivia_apply]
    by_cases hblanks : lengthWhile isSpacing s = 0
    · rw [hblanks, List.take_zero, List.drop_zero, List.append_nil] at houtput
      rw [hblanks, List.drop_zero] at hrest
      refine .passed rfl hrest ?_
      rw [houtput]
      exact .of_feeds k _
    · obtain ⟨hshort, hsame⟩ := lexis.rounds_gap_of_blanks hblanks
      refine .passed rfl (hrest.trans hsame.symm) ?_
      rw [houtput, hshort]
      exact .of_token k _ _

instance blind_of_settled (p : Parser α) [h : Settled p] : Blind p where
  read k hk s := .inl (h.read k hk s)

instance blind_pure (a : α) : Blind (pure a : Parser α) where
  read _ _ _ := .inr ⟨a, rfl, rfl⟩

instance settled_fail : Settled (fail : Parser α) where
  read _ _ _ := .failed

instance blind_take_zero : Blind (take 0) where
  read _ _ _ := .inr ⟨(), rfl, rfl⟩

/-- What comes next is the same. -/
instance blind_ahead (lexis : Lexis) : Blind lexis.ahead where
  read k hk s := by
    have htrivia := (settled_trivia lexis).read k hk s
    rw [lexis.trivia_apply, lexis.trivia_apply] at htrivia
    cases htrivia with
    | passed hvalue hrest houtput =>
        refine .inr ⟨(rounds lexis.gap s).rest, ?_, rfl⟩
        rw [← hrest]
        rfl

instance settled_bind (p : Parser α) (f : α → Parser β) [h : Settled p] : Settled (p >>= f) where
  read k hk s := (h.read k hk s).bind f

instance (priority := low) settled_bind_right (p : Parser α) (f : α → Parser β) [hp : Blind p]
    [hf : ∀ a, Settled (f a)] : Settled (p >>= f) where
  read k hk s := by
    obtain htogether | ⟨a, hfeeds, hstill⟩ := hp.read k hk s
    · exact htogether.bind f
    · rw [bind_of_still f hfeeds, bind_of_still f hstill]
      exact (hf a).read k hk s

instance (priority := low) blind_bind (p : Parser α) (f : α → Parser β) [hp : Blind p]
    [hf : ∀ a, Blind (f a)] : Blind (p >>= f) where
  read k hk s := by
    obtain htogether | ⟨a, hfeeds, hstill⟩ := hp.read k hk s
    · exact .inl (htogether.bind f)
    · rw [bind_of_still f hfeeds, bind_of_still f hstill]
      exact (hf a).read k hk s

instance settled_orElse (p q : Parser α) [hp : Settled p] [hq : Settled q] :
    Settled (orElse p q) where
  read k hk s := (hp.read k hk s).orElse (hq.read k hk s)

instance settled_ite {c : Prop} [Decidable c] (p q : Parser α) [Settled p] [Settled q] :
    Settled (if c then p else q) := by
  split <;> infer_instance

theorem goesOn_of_value {round : Step Bool s} (hvalue : round.value = true)
    (hshort : round.rest.length < s.length) : goesOn round = true := by
  have hlength := round.length_eq
  have htext : Tree.textAll round.output ≠ [] := fun hnil => by
    rw [hnil, List.length_nil] at hlength
    omega
  rw [goesOn, hvalue, Tree.spansTextAny_of_textAll_ne_nil _ htext]
  rfl

/-- A round that stops the repetition without reading stops it again. -/
theorem rounds_of_still {p : Parser Bool} {round : Step Bool s} (h : p s = some round)
    (hvalue : round.value = true) (hstops : goesOn round = false) :
    Tree.textAll round.output = [] ∧ (rounds p round.rest).output = round.output ∧
      (rounds p round.rest).rest = round.rest := by
  have hlength : round.rest.length = s.length :=
    Nat.le_antisymm round.length_rest_le <| Nat.not_lt.mp fun hshort => by
      rw [goesOn_of_value hvalue hshort] at hstops
      cases hstops
  have htext : Tree.textAll round.output = [] := by
    rw [← List.length_eq_zero_iff]
    have hwhole := round.length_eq
    omega
  have hrest : round.rest = s := by
    have hwhole := round.whole
    rwa [htext, List.nil_append] at hwhole
  have hrounds : rounds p s = { round with value := () } := by
    rw [rounds_eq, h]
    dsimp only
    rw [hstops, if_neg Bool.false_ne_true]
  refine ⟨htext, ?_⟩
  rw [hrest, hrounds]
  exact ⟨rfl, hrest⟩

/-- A repetition whose first round comes to the same place comes to the same place.  If that round
read nothing but the line feeds, then the round without them stops, and stops again behind them. -/
theorem together_rounds {p : Parser Bool} {round' : Step Bool s'} {round : Step Bool s}
    (hround' : p s' = some round') (hround : p s = some round) (hlonger : s.length < s'.length)
    (hvalue : round'.value = round.value) (hrest : round'.rest = round.rest)
    (houtput : Lowered k round'.output round.output) :
    Together k (some (rounds p s')) (some (rounds p s)) := by
  rw [rounds_eq p s', rounds_eq p s, hround', hround]
  dsimp only
  have hsame : (rounds p round'.rest).output = (rounds p round.rest).output ∧
      (rounds p round'.rest).rest = (rounds p round.rest).rest := by
    rw [hrest]
    exact ⟨rfl, rfl⟩
  cases hstops : round.value with
  | false =>
      rw [hstops] at hvalue
      rw [goesOn, goesOn, hvalue, hstops]
      exact .passed rfl hrest houtput
  | true =>
      have hgoes' : goesOn round' = true := by
        refine goesOn_of_value (hvalue.trans hstops) ?_
        rw [hrest]
        exact Nat.lt_of_le_of_lt round.length_rest_le hlonger
      rw [hgoes', if_pos rfl]
      cases hgoes : goesOn round with
      | true =>
          refine .passed rfl hsame.2 ?_
          change Lowered k (_ ++ (rounds p round'.rest).output) (_ ++ (rounds p round.rest).output)
          rw [hsame.1]
          exact houtput.append _
      | false =>
          obtain ⟨htext, hagain, hstill⟩ := rounds_of_still hround hstops hgoes
          refine .passed rfl (hsame.2.trans hstill) ?_
          change Lowered k (_ ++ (rounds p round'.rest).output) round.output
          rw [hsame.1, hagain]
          exact houtput.append_textless htext

instance blind_repeatWhile (p : Parser Bool) [h : Blind p] : Blind (repeatWhile p) where
  read k hk s := by
    rw [repeatWhile_apply, repeatWhile_apply]
    obtain htogether | ⟨a, hfeeds, hstill⟩ := h.read k hk s
    · generalize hround' : p (List.replicate k '\n' ++ s) = result', hround : p s = result
        at htogether
      cases htogether with
      | failed => exact .inr ⟨(), by rw [rounds_of_none hround'], by rw [rounds_of_none hround]⟩
      | passed hvalue hrest houtput =>
          refine .inl (together_rounds hround' hround ?_ hvalue hrest houtput)
          rw [List.length_append, List.length_replicate]
          omega
    · refine .inr ⟨(), ?_, ?_⟩
      · rw [rounds_eq, hfeeds]
        simp [goesOn, Tree.spansTextAny]
      · rw [rounds_eq, hstill]
        simp [goesOn, Tree.spansTextAny]

instance blind_many (p : Parser α) [Blind p] : Blind (many p) := by
  unfold many
  infer_instance

/-! ## Whole sources -/

instance settled_takeRest : Settled takeRest where
  read k hk s := by
    obtain ⟨k, rfl⟩ := Nat.exists_eq_succ_of_ne_zero hk
    cases s with
    | nil =>
        refine .passed rfl rfl ?_
        have hfeeds := Lowered.of_feeds (k + 1) []
        rwa [← List.append_nil (List.replicate (k + 1) '\n')] at hfeeds
    | cons c s => exact .passed rfl rfl (.of_token (k + 1) (c :: s) [])

/-- The tree of a source behind line feeds has the comments that it has in as many rows further
down. -/
theorem visible_wholeTree {p : Parser Unit} (hk : k ≠ 0)
    (h : Together k (p (List.replicate k '\n' ++ s)) (p s)) :
    Tree.visible 0 [] [wholeTree p (List.replicate k '\n' ++ s)] =
      Tree.visible k [] [wholeTree p s] := by
  have hsource := (h.bind fun _ => takeRest).orElse (settled_takeRest.read k hk s)
  unfold wholeTree
  generalize orElse (p >>= fun _ => takeRest) takeRest (List.replicate k '\n' ++ s) = result',
    orElse (p >>= fun _ => takeRest) takeRest s = result at hsource
  cases hsource with
  | failed => rfl
  | @passed step' step hvalue hrest houtput =>
      have hends := houtput.append [.token step.rest]
      dsimp only
      rw [hrest, Tree.visible_node (by decide), Tree.visible_node (by decide), hends.comments,
        Nat.zero_add]

end Parser

namespace Lexis

open Parser

variable {α : Type} (lexis : Lexis)

instance settled_node (p : Parser (Option (Kind × Option (List Char)) × α)) :
    Settled (lexis.node p) := by
  unfold node
  infer_instance

instance settled_symbol (lead : String) : Settled (lexis.symbol lead) := by
  unfold symbol
  infer_instance

instance settled_word : Settled lexis.word := by
  unfold word
  infer_instance

end Lexis

end Syntax

end TodoIndex
