import MetadataAgent.Json.Parser

/-! # Texts that are cut

A stream of texts may end within one of them. What has come of that text is the beginning of an
object; it can still be continued in more than one way, so that nothing of it has been reported.
The user callback has then been called with the values of the texts whose tokens have all come, and
with no others. -/
namespace MetadataAgent.Json
open Lib
set_option autoImplicit false

/-! ## Callbacks that simulate each other -/

section Simulation
variable {γ δ ε : Type}

def JSONBuilder.mapUser (f : γ → δ) (b : JSONBuilder γ) : JSONBuilder δ :=
  ⟨b.context, b.cerr, f b.user⟩

/-- The one callback does on the image of a state what the other one does on the state. -/
def Simulates (f : γ → δ) (callback : UserCallback γ ε) (callback' : UserCallback δ ε) : Prop :=
  ∀ g v, callback' (f g) v = (f (callback g v).1, (callback g v).2)

variable {f : γ → δ} {callback : UserCallback γ ε} {callback' : UserCallback δ ε}

theorem addValue_mapUser (h : Simulates f callback callback') (b : JSONBuilder γ) (v : Value) :
    (b.mapUser f).addValue callback' v =
      ((b.addValue callback v).1.mapUser f, (b.addValue callback v).2) := by
  obtain ⟨context, cerr, user⟩ := b
  cases context with
  | callback =>
    have hv := h user v
    simp only [JSONBuilder.mapUser, JSONBuilder.addValue]
    rw [hv]
    rcases callback user v with ⟨next, _ | e⟩
    · rfl
    · rfl
  | array parent elements => rfl
  | object parent fields name => cases name <;> rfl

theorem handle_mapUser (h : Simulates f callback callback') (b : JSONBuilder γ) (e : Event) :
    handle callback' (b.mapUser f) e =
      ((handle callback b e).1.mapUser f, (handle callback b e).2) := by
  cases e with
  | null => exact addValue_mapUser h b .null
  | boolean value => exact addValue_mapUser h b (.boolean value)
  | integer value => exact addValue_mapUser h b (.number (.finite value))
  | double value => exact addValue_mapUser h b (.number value)
  | string val => exact addValue_mapUser h b (.string val)
  | startMap => rfl
  | startArray => rfl
  | mapKey key =>
    obtain ⟨context, cerr, user⟩ := b
    cases context with
    | callback => rfl
    | array parent elements => rfl
    | object parent fields name => cases name <;> rfl
  | endMap =>
    obtain ⟨context, cerr, user⟩ := b
    cases context with
    | callback => rfl
    | array parent elements => rfl
    | object parent fields name =>
      exact addValue_mapUser h ⟨parent, cerr, user⟩ (.object fields.entries)
  | endArray =>
    obtain ⟨context, cerr, user⟩ := b
    cases context with
    | callback => rfl
    | array parent elements => exact addValue_mapUser h ⟨parent, cerr, user⟩ (.array elements)
    | object parent fields name => rfl

theorem handleAll_mapUser (h : Simulates f callback callback') (b : JSONBuilder γ)
    (es : List Event) :
    handleAll callback' (b.mapUser f) es =
      ((handleAll callback b es).1.mapUser f, (handleAll callback b es).2) := by
  induction es generalizing b with
  | nil => rfl
  | cons e es ih =>
    rw [handleAll, handleAll, handle_mapUser h]
    rcases handle callback b e with ⟨next, _ | _ | x⟩
    · exact ih next
    · rfl
    · rfl

/-- What the callback keeps, the builder keeps: the callback is one on the states that have it. -/
theorem handleAll_keeps {P : γ → Prop} (h : ∀ g v, P g → P (callback g v).1) {b : JSONBuilder γ}
    (hb : P b.user) (es : List Event) : P (handleAll callback b es).1.user := by
  have hsimulates : Simulates (Subtype.val (p := P))
      (fun g v => (⟨(callback g.1 v).1, h g.1 v g.2⟩, (callback g.1 v).2)) callback :=
    fun g v => rfl
  have hb' : b = JSONBuilder.mapUser Subtype.val
      (⟨b.context, b.cerr, ⟨b.user, hb⟩⟩ : JSONBuilder (Subtype P)) := rfl
  rw [hb', handleAll_mapUser hsimulates]
  exact Subtype.property _

end Simulation

/-! ## Events within an object -/

section Builder
variable {γ : Type} (callback : UserCallback γ Exception)

/-- The callback, with the list of the values that it is called with. -/
def noted : UserCallback (List Value × γ) Exception := fun u v =>
  ((u.1 ++ [v], (callback u.2 v).1), (callback u.2 v).2)

/-- Before the end of the object, the callback is not called. -/
theorem handleAll_within (fields : List (Bytes × Doc)) (cerr : List Diagnostic) (g : γ)
    {es : List Event} (hes : es <+: .startMap :: fieldEvents fields) :
    ∃ b, handleAll callback ⟨.callback, cerr, g⟩ es = (b, .proceed) ∧ b.user = g := by
  obtain ⟨rest, hrest⟩ := hes
  have hnoted : Simulates (Prod.snd (α := List Value)) (noted callback) callback := fun u v => rfl
  have hopen := handleAll_open (noted callback) fields ⟨.callback, cerr, ([], g)⟩
  rw [← hrest, handleAll_append] at hopen
  rcases hfront : handleAll (noted callback) ⟨.callback, cerr, ([], g)⟩ es with ⟨b, _ | _ | e⟩
  · rw [hfront] at hopen
    -- the notes only grow, and in the end there are none
    have hgrown : b.user.1 = [] := by
      have hkept := @handleAll_keeps _ _ (noted callback) (fun u => b.user.1 <+: u.1)
        (fun u v hu => hu.trans (List.prefix_append u.1 [v])) b (List.prefix_refl _) rest
      simp only [hopen] at hkept
      exact List.prefix_nil.mp hkept
    have hstate := @handleAll_keeps _ _ (noted callback) (fun u => u.1 = [] → u.2 = g)
      (fun u v hu h => absurd h (by simp [noted])) ⟨.callback, cerr, ([], g)⟩ (fun _ => rfl) es
    rw [hfront] at hstate
    have hmap := handleAll_mapUser hnoted ⟨.callback, cerr, ([], g)⟩ es
    rw [hfront] at hmap
    exact ⟨_, hmap, hstate hgrown⟩
  · rw [hfront] at hopen
    cases hopen
  · rw [hfront] at hopen
    cases hopen

end Builder

/-! ## Tokens within an object -/

theorem prefix_of_two {α : Type} {l a b c : List α} {x z : α} (hne : x ≠ z)
    (hx : l <+: a ++ x :: b) (hz : l <+: a ++ z :: c) : l <+: a := by
  induction a generalizing l with
  | nil =>
    cases l with
    | nil => exact List.nil_prefix
    | cons y l =>
      rw [List.nil_append, List.cons_prefix_cons] at hx hz
      exact absurd (hx.1.symm.trans hz.1) hne
  | cons y a ih =>
    cases l with
    | nil => exact List.nil_prefix
    | cons w l =>
      rw [List.cons_append, List.cons_prefix_cons] at hx hz
      rw [List.cons_prefix_cons]
      exact ⟨hx.1, ih hx.2 hz.2⟩

theorem intercalate_begins {α : Type} (sep : List α) (ls : List (List α)) (l : List α) :
    sep.intercalate ls <+: sep.intercalate (ls ++ [l]) := by
  induction ls with
  | nil => exact List.nil_prefix
  | cons a ls ih =>
    cases ls with
    | nil =>
      rw [List.singleton_append, List.intercalate_cons_cons, List.intercalate_singleton,
        List.append_assoc]
      exact List.prefix_append _ _
    | cons b ls =>
      rw [List.cons_append, List.cons_append, List.intercalate_cons_cons,
        List.intercalate_cons_cons, List.prefix_append_right_inj]
      exact ih

namespace Yajl
variable (y : Yajl)

theorem accepts_front {s t : y.State} {front rest : List Token} {es : List Event}
    (h : y.accepts s (front ++ rest) = some (es, t)) :
    ∃ es' t', y.accepts s front = some (es', t') ∧ es' <+: es := by
  induction front generalizing s es with
  | nil => exact ⟨[], s, rfl, List.nil_prefix⟩
  | cons tok front ih =>
    rw [List.cons_append] at h
    rcases hreact : y.react s (some tok) with next | ⟨event, during, after⟩ | next
    · rw [y.accepts_cons_silent _ hreact] at h ⊢
      exact ih h
    · rw [y.accepts_cons_call _ hreact] at h ⊢
      obtain ⟨⟨events, u⟩, hr, hevents⟩ := Option.map_eq_some_iff.mp h
      obtain ⟨rfl, rfl⟩ := Prod.mk.inj hevents
      obtain ⟨es', t', hfront, hes⟩ := ih hr
      refine ⟨event :: es', t', ?_, ?_⟩
      · rw [hfront]
        rfl
      · rw [List.cons_prefix_cons]
        exact ⟨rfl, hes⟩
    · rw [y.accepts_cons_reject _ hreact] at h
      cases h

variable {y} {Between InsideMap Failed : y.State → Prop}

/-- A beginning of the tokens of an object is also that of an object with one more field, so that
its end has not been reported. -/
theorem accepts_within (hy : y.Documented Between InsideMap Failed) (fields : List (Bytes × Doc))
    {s : y.State} (hs : Between s) {toks : List Token}
    (hbegins : toks <+: (Doc.object fields).tokens) (hne : toks ≠ (Doc.object fields).tokens) :
    ∃ es t, y.accepts s toks = some (es, t) ∧ es <+: .startMap :: fieldEvents fields := by
  have htokens : (Doc.object fields).tokens =
      (.leftBrace :: [Token.comma].intercalate (fieldTokens fields)) ++ [.rightBrace] := by
    rw [Doc.tokens, List.cons_append]
  have hopen : toks <+: .leftBrace :: [Token.comma].intercalate (fieldTokens fields) := by
    rw [htokens, List.prefix_concat_iff] at hbegins
    rw [htokens] at hne
    exact hbegins.resolve_left hne
  have hmore : toks <+: (Doc.object (fields ++ [([], .null)])).tokens := by
    have hfields : fieldTokens (fields ++ [([], .null)]) =
        fieldTokens fields ++ [[.string [], .colon, .null]] := by
      rw [fieldTokens_eq, fieldTokens_eq, List.map_append]
      rfl
    rw [Doc.tokens, hfields]
    refine hopen.trans ?_
    rw [List.cons_prefix_cons]
    exact ⟨rfl, (intercalate_begins _ _ _).trans (List.prefix_append _ _)⟩
  obtain ⟨t, haccepts, -⟩ := hy.reports fields s hs
  obtain ⟨t', haccepts', -⟩ := hy.reports (fields ++ [([], .null)]) s hs
  obtain ⟨rest, hrest⟩ := hbegins
  obtain ⟨rest', hrest'⟩ := hmore
  rw [← hrest] at haccepts
  rw [← hrest'] at haccepts'
  obtain ⟨es, u, hes, hevents⟩ := y.accepts_front haccepts
  obtain ⟨es', u', hes', hevents'⟩ := y.accepts_front haccepts'
  obtain ⟨rfl, rfl⟩ : es = es' ∧ u = u' := by
    rw [hes] at hes'
    exact Prod.mk.inj (Option.some_inj.mp hes')
  refine ⟨es, u, hes, ?_⟩
  have hfields : fieldEvents (fields ++ [([], .null)]) =
      fieldEvents fields ++ [.mapKey [], .null] := by
    rw [fieldEvents_eq, fieldEvents_eq, List.flatMap_append]
    rfl
  rw [Doc.events] at hevents hevents'
  rw [hfields, List.append_assoc, ← List.cons_append] at hevents'
  rw [← List.cons_append] at hevents
  have hne : Event.endMap ≠ .mapKey [] := by
    intro h
    cases h
  exact prefix_of_two hne hevents hevents'

end Yajl

/-! ## Texts that have come -/

/-- How many of the objects have all their tokens among these, one object after the other. -/
def completeObjects : List (List (Bytes × Doc)) → List (Option Token) → ℕ
  | [], _ => 0
  | fields :: objects, toks =>
    if ((Doc.object fields).tokens.map some).isPrefixOf toks then
      completeObjects objects (toks.drop (Doc.object fields).tokens.length) + 1
    else 0

theorem tokens_ne_nil (fields : List (Bytes × Doc)) : (Doc.object fields).tokens ≠ [] := by
  rw [Doc.tokens]
  exact List.cons_ne_nil _ _

/-- Objects whose tokens are all there are complete. -/
theorem le_completeObjects {objects : List (List (Bytes × Doc))} {toks : List (Option Token)}
    {m : ℕ} (hm : m ≤ objects.length)
    (h : ((objects.take m).flatMap fun fields => (Doc.object fields).tokens).map some <+: toks) :
    m ≤ completeObjects objects toks := by
  induction objects generalizing toks m with
  | nil => exact le_trans hm (Nat.zero_le _)
  | cons fields objects ih =>
    cases m with
    | zero => exact Nat.zero_le _
    | succ m =>
      rw [List.take_succ_cons, List.flatMap_cons, List.map_append] at h
      obtain ⟨rest, rfl⟩ := h
      rw [completeObjects, if_pos (by simp), List.append_assoc, List.drop_append_of_le_length
        (by simp), List.drop_of_length_le (by simp), List.nil_append]
      exact Nat.succ_le_succ (ih (Nat.le_of_succ_le_succ hm) (List.prefix_append _ _))

/-- No more are complete than have begun. -/
theorem completeObjects_le {objects : List (List (Bytes × Doc))} {toks : List (Option Token)}
    {m : ℕ}
    (h : toks <+: ((objects.take m).flatMap fun fields => (Doc.object fields).tokens).map some) :
    completeObjects objects toks ≤ m := by
  induction objects generalizing toks m with
  | nil => exact Nat.zero_le m
  | cons fields objects ih =>
    rw [completeObjects]
    split
    · rename_i hown
      rw [List.isPrefixOf_iff_prefix] at hown
      obtain ⟨rest, rfl⟩ := hown
      cases m with
      | zero =>
        have hnil := List.eq_nil_of_prefix_nil h
        rw [List.append_eq_nil_iff, List.map_eq_nil_iff] at hnil
        exact absurd hnil.1 (tokens_ne_nil fields)
      | succ m =>
        rw [List.take_succ_cons, List.flatMap_cons, List.map_append,
          List.prefix_append_right_inj] at h
        rw [List.drop_append_of_le_length (by simp), List.drop_of_length_le (by simp),
          List.nil_append]
        exact Nat.succ_le_succ (ih h)
    · exact Nat.zero_le m

section Feed
variable {y : Yajl} {γ : Type} (callback : UserCallback γ Exception)
variable {Between InsideMap Failed : y.State → Prop}

theorem feed_within (hy : y.Documented Between InsideMap Failed) (fields : List (Bytes × Doc))
    {s : y.State} (hs : Between s) (cerr : List Diagnostic) (g : γ) {toks : List Token}
    (hbegins : toks <+: (Doc.object fields).tokens) (hne : toks ≠ (Doc.object fields).tokens) :
    ∃ t b, runUntil (feedToken y callback) (s, ⟨.callback, cerr, g⟩) (toks.map some) =
      ((t, b), none) ∧ b.user = g := by
  obtain ⟨es, t, haccepts, hes⟩ := Yajl.accepts_within hy fields hs hbegins hne
  obtain ⟨b, hb, huser⟩ := handleAll_within callback fields cerr g hes
  exact ⟨t, b, feed_of_accepts y callback haccepts hb, huser⟩

/-- The beginning of objects one after the other: the callback has those that are complete, up to
the first on which it throws. -/
theorem feed_begun (hy : y.Documented Between InsideMap Failed)
    (objects : List (List (Bytes × Doc))) {s : y.State} (hs : Between s) (cerr : List Diagnostic)
    (g : γ) {toks : List Token}
    (hbegins : toks <+: objects.flatMap fun fields => (Doc.object fields).tokens) :
    let complete := (objects.take (completeObjects objects (toks.map some))).map fun fields =>
      (Doc.object fields).value
    (∀ g', runUntil callback g complete = (g', none) →
      ∃ t b, runUntil (feedToken y callback) (s, ⟨.callback, cerr, g⟩) (toks.map some) =
        ((t, b), none) ∧ b.user = g') ∧
    ∀ g' e, runUntil callback g complete = (g', some e) →
      ∃ t, InsideMap t ∧ runUntil (feedToken y callback) (s, ⟨.callback, cerr, g⟩)
        (toks.map some) = ((t, ⟨.callback, cerr, g'⟩), some (.thrown e)) := by
  induction objects generalizing s g toks with
  | nil =>
    rw [List.flatMap_nil, List.prefix_nil] at hbegins
    subst hbegins
    refine ⟨fun g' hg => ⟨s, ⟨.callback, cerr, g⟩, rfl, ?_⟩, fun g' e hg => ?_⟩
    · exact congrArg Prod.fst hg
    · cases hg
  | cons fields objects ih =>
    rw [List.flatMap_cons] at hbegins
    by_cases hown : (Doc.object fields).tokens <+: toks
    · obtain ⟨rest, rfl⟩ := hown
      rw [List.prefix_append_right_inj] at hbegins
      have hcomplete : completeObjects (fields :: objects)
          (((Doc.object fields).tokens ++ rest).map some) =
            completeObjects objects (rest.map some) + 1 := by
        rw [completeObjects, List.map_append, if_pos (by simp), List.drop_append_of_le_length
          (by simp), List.drop_of_length_le (by simp), List.nil_append]
      intro complete
      have hvalues : complete = (Doc.object fields).value ::
          (objects.take (completeObjects objects (rest.map some))).map fun fields =>
            (Doc.object fields).value := by
        simp only [complete]
        rw [hcomplete, List.take_succ_cons, List.map_cons]
      rw [hvalues, List.map_append]
      obtain ⟨hnone, hsome⟩ := feed_object callback hy fields hs cerr g
      rcases hcall : callback g (Doc.object fields).value with ⟨g₁, _ | e⟩
      · obtain ⟨t, ht, hfed⟩ := hnone g₁ hcall
        rw [runUntil_cons_none _ hcall, runUntil_append_none _ hfed]
        exact ih ht g₁ hbegins
      · obtain ⟨t, ht, hfed⟩ := hsome g₁ e hcall
        rw [runUntil_cons_some _ hcall, runUntil_append_some _ hfed]
        refine ⟨fun g' hg => ?_, fun g' e' hg => ⟨t, ht, ?_⟩⟩
        · cases hg
        · cases hg
          rfl
    · have hbegun : toks <+: (Doc.object fields).tokens :=
        (List.prefix_or_prefix_of_prefix hbegins (List.prefix_append _ _)).resolve_right hown
      have hcomplete : completeObjects (fields :: objects) (toks.map some) = 0 := by
        rw [completeObjects, if_neg]
        rw [List.isPrefixOf_iff_prefix, List.prefix_map_iff_of_injective fun a b => Option.some.inj]
        exact hown
      have hne : toks ≠ (Doc.object fields).tokens := fun h => hown (h ▸ List.prefix_refl _)
      obtain ⟨t, b, hfed, huser⟩ := feed_within callback hy fields hs cerr g hbegun hne
      intro complete
      have hvalues : complete = [] := by
        simp only [complete]
        rw [hcomplete]
        rfl
      rw [hvalues]
      refine ⟨fun g' hg => ⟨t, b, hfed, ?_⟩, fun g' e hg => ?_⟩
      · rw [huser]
        exact congrArg Prod.fst hg
      · cases hg

end Feed

end MetadataAgent.Json
