import DualView.Proofs.Arena.Calls
import DualView.Proofs.Assembly.TreeCalls

/-!
# Calls for trees

A flat builder assembles a tree by single calls, and afterwards has open what it had open before.
The calls never reach below that (`FlatBuilder.Stays`), also if one of them fails.

* `FlatBuilder.perform_answers`: single calls in order are answered as by the builder.
* `FlatBuilder.calls_stay`: the calls for a tree leave what was open before, and nothing else if
  they are taken.
* `FlatBuilder.call_answers`: every call is answered as by the builder.
-/

namespace DualView

theorem Reply.accepted_answer (r : Reply) : r.answer.accepted = r.accepted := by
  cases r <;> rfl

theorem Reply.eq_failed_of_answer {r : Reply} {e : NodeError}
    (h : r.answer = .reply (.failed e)) : r = .failed e := by
  cases r <;> cases h
  rfl

namespace FlatBuilder

open Arena

variable {p : Prototype} {a : Arena} {gs outer : List Grip} {hs : List Handle} {g : Grip}
  {f f' : FlatBuilder} {b : Builder} {calls rest : List Call} {c : Call} {waits : Bool}
  {mid done : FlatBuilder → Prop}

/-! ## Single calls in order -/

/-- Go on after a call that was taken. -/
def andThen (x : Option (FlatBuilder × Answer))
    (next : FlatBuilder → Option (FlatBuilder × Answer)) : Option (FlatBuilder × Answer) :=
  x.bind fun (f, answer) => if answer.accepted then next f else some (f, answer)

theorem andThen_assoc (x : Option (FlatBuilder × Answer))
    (next later : FlatBuilder → Option (FlatBuilder × Answer)) :
    andThen (andThen x next) later = andThen x fun f => andThen (next f) later := by
  rcases x with - | ⟨f, answer⟩
  · rfl
  · show andThen (if answer.accepted then next f else some (f, answer)) later =
      if answer.accepted then andThen (next f) later else some (f, answer)
    by_cases accepted : answer.accepted = true
    · rw [if_pos accepted, if_pos accepted]
    · rw [if_neg accepted, if_neg accepted]
      exact if_neg accepted

theorem AnswersAs.andThen {x : Option (FlatBuilder × Answer)} {r : Builder × Reply}
    {next : FlatBuilder → Option (FlatBuilder × Answer)} {next' : Builder → Builder × Reply}
    (h : AnswersAs x r) (later : ∀ {f b}, Mirrors f b → AnswersAs (next f) (next' b)) :
    AnswersAs (andThen x next) (Builder.andThen r next') := by
  obtain ⟨f, rfl, mirrors⟩ := h
  show AnswersAs (if r.2.answer.accepted then next f else some (f, r.2.answer)) _
  rw [Reply.accepted_answer, Builder.andThen]
  split
  · exact later mirrors
  · exact ⟨f, rfl, mirrors⟩

theorem perform_cons (f : FlatBuilder) (c : Call) (rest : List Call) :
    f.perform (c :: rest) = andThen (f.callOnce c) (·.perform rest) := rfl

/-- **Single calls in order are answered as by the builder.** -/
theorem perform_answers (mirrors : Mirrors f b) (single : ∀ c ∈ calls, Single c) :
    AnswersAs (f.perform calls) (b.forEach Builder.call calls) := by
  induction calls generalizing f b with
  | nil => exact ⟨f, rfl, mirrors⟩
  | cons c rest ih =>
    rw [List.forall_mem_cons] at single
    exact (callOnce_answers mirrors single.1).andThen fun mirrors => ih mirrors single.2

theorem perform_append (f : FlatBuilder) (calls rest : List Call) :
    f.perform (calls ++ rest) = andThen (f.perform calls) (·.perform rest) := by
  induction calls generalizing f with
  | nil => rfl
  | cons c calls ih =>
    rw [List.cons_append, perform_cons, perform_cons, andThen_assoc]
    exact congrArg (andThen (f.callOnce c)) (funext ih)

/-! ## What calls leave open -/

/-- Calls leave what was open before, and a builder of some kind if they are taken. -/
def Stays (p : Prototype) (outer : List Grip) (done : FlatBuilder → Prop)
    (x : Option (FlatBuilder × Answer)) : Prop :=
  ∀ f answer, x = some (f, answer) →
    (f.prototype = p ∧ outer <:+ f.grips) ∧ (answer.accepted = true → done f)

structure At (p : Prototype) (gs : List Grip) (waits : Bool) (f : FlatBuilder) : Prop where
  prototype : f.prototype = p
  grips : f.grips = gs
  opening : f.opening.isSome = waits

theorem Stays.mono {x : Option (FlatBuilder × Answer)} (h : Stays p gs done x)
    (le : outer <:+ gs) : Stays p outer done x := by
  intro f answer hx
  obtain ⟨⟨prototype, above⟩, done⟩ := h f answer hx
  exact ⟨⟨prototype, le.trans above⟩, done⟩

theorem stays_nil (h : At p gs waits f) : Stays p gs (At p gs waits) (f.perform []) := by
  rintro _ _ ⟨⟩
  exact ⟨⟨h.prototype, h.grips ▸ List.suffix_rfl⟩, fun _ => h⟩

theorem Stays.andThen {x : Option (FlatBuilder × Answer)}
    {next : FlatBuilder → Option (FlatBuilder × Answer)} (first : Stays p outer mid x)
    (later : ∀ f, mid f → Stays p outer done (next f)) :
    Stays p outer done (andThen x next) := by
  intro f' answer performed
  obtain ⟨⟨f, answer'⟩, called, performed⟩ := Option.bind_eq_some_iff.mp performed
  obtain ⟨left, taken⟩ := first f answer' called
  dsimp only at performed
  split at performed
  · rename_i accepted
    exact later f (taken accepted) f' answer performed
  · rename_i refused
    cases performed
    exact ⟨left, fun accepted => absurd accepted refused⟩

theorem Stays.cons (first : Stays p outer mid (f.callOnce c))
    (later : ∀ f, mid f → Stays p outer done (f.perform rest)) :
    Stays p outer done (f.perform (c :: rest)) :=
  first.andThen later

theorem Stays.append (first : Stays p outer mid (f.perform calls))
    (later : ∀ f, mid f → Stays p outer done (f.perform rest)) :
    Stays p outer done (f.perform (calls ++ rest)) := by
  rw [perform_append]
  exact first.andThen later

theorem Stays.last (first : Stays p gs (At p gs waits) (f.callOnce c)) :
    Stays p gs (At p gs waits) (f.perform [c]) :=
  first.cons fun _ => stays_nil

/-- A step leaves what was open before, and what follows on it if it succeeds. -/
theorem stays_take {α : Type} {step : Arena.Step α}
    (next : FlatBuilder → α → FlatBuilder × Reply) (left : f.prototype = p ∧ outer <:+ f.grips)
    (ok : ∀ a v, ((next { f with arena := a } v).1.prototype = p ∧
      outer <:+ (next { f with arena := a } v).1.grips) ∧ done (next { f with arena := a } v).1) :
    Stays p outer done (f.take step next) := by
  intro f' answer taken
  obtain ⟨⟨result, a⟩, -, he⟩ := Option.map_eq_some_iff.mp taken
  cases result with
  | error e =>
    cases he
    exact ⟨left, nofun⟩
  | ok v =>
    cases he
    exact ⟨(ok a v).1, fun _ => (ok a v).2⟩

/-! ### Single calls -/

/-- The call fills a place at once. -/
inductive Fills : Call → Prop
  | null : Fills .null
  | scalar (s : Scalar) : Fills (.scalar s)

theorem At.fills_stays (h : At p gs true f) (fills : Fills c) :
    Stays p gs (At p gs false) (f.callOnce c) := by
  obtain ⟨prototype, a, grips, _ | ⟨q, spec⟩⟩ := f
  · exact nomatch h.opening
  · obtain ⟨rfl, rfl, -⟩ := h
    cases fills <;>
      exact stays_take (f := ⟨prototype, a, grips, none⟩) (fun f _ => (f, .done))
        ⟨rfl, List.suffix_rfl⟩ fun _ _ => ⟨⟨rfl, List.suffix_rfl⟩, rfl, rfl, rfl⟩

def Amid (p : Prototype) (gs : List Grip) (kind : Kind) (f : FlatBuilder) : Prop :=
  ∃ g : Grip, g.kind = kind ∧ At p (g :: gs) false f

inductive Begins : Kind → Call → Prop
  | map : Begins .map .map
  | list : Begins .list .list

theorem At.begins_stays {kind : Kind} (h : At p gs true f) (begins : Begins kind c) :
    Stays p gs (Amid p gs kind) (f.callOnce c) := by
  obtain ⟨prototype, a, grips, _ | ⟨q, spec⟩⟩ := f
  · exact nomatch h.opening
  · obtain ⟨rfl, rfl, -⟩ := h
    have amid (a : Arena) (id : CellId) : Amid prototype grips kind
        ⟨prototype, a, ⟨id, spec.view, kind⟩ :: grips, none⟩ := ⟨_, rfl, rfl, rfl, rfl⟩
    cases begins with
    | map =>
      exact stays_take (f := ⟨prototype, a, grips, none⟩)
        (fun f id => ({ f with grips := ⟨id, spec.view, .map⟩ :: f.grips }, .map spec.view))
        ⟨rfl, List.suffix_rfl⟩ fun a id => ⟨⟨rfl, List.suffix_cons ..⟩, amid a id⟩
    | list =>
      exact stays_take (f := ⟨prototype, a, grips, none⟩)
        (fun f id => ({ f with grips := ⟨id, spec.view, .list⟩ :: f.grips }, .list spec.view))
        ⟨rfl, List.suffix_rfl⟩ fun a id => ⟨⟨rfl, List.suffix_cons ..⟩, amid a id⟩

/-- The call opens something in a compound of some kind. -/
inductive OpensIn : Kind → Call → Prop
  | entry (key : String) : OpensIn .map (.entry key)
  | key : OpensIn .map .key
  | value : OpensIn .map .value
  | item : OpensIn .list .value

theorem At.opens_stays (h : At p (g :: gs) false f) (opens : OpensIn g.kind c) :
    Stays p (g :: gs) (At p (g :: gs) true) (f.callOnce c) := by
  obtain ⟨prototype, a, grips, _ | o⟩ := f
  · obtain ⟨rfl, rfl, -⟩ := h
    obtain ⟨cell, view, kind⟩ := g
    cases opens <;>
      exact stays_take (f := ⟨prototype, a, _ :: gs, none⟩) await ⟨rfl, List.suffix_rfl⟩
        fun _ _ => ⟨⟨rfl, List.suffix_rfl⟩, rfl, rfl, rfl⟩
  · exact nomatch h.opening

theorem At.finish_stays (h : At p (g :: gs) false f) :
    Stays p (g :: gs) (At p (g :: gs) false) (f.callOnce .finish) := by
  obtain ⟨prototype, a, grips, _ | o⟩ := f
  · obtain ⟨rfl, rfl, -⟩ := h
    obtain ⟨cell, view, kind⟩ := g
    cases kind <;>
      exact stays_take (f := ⟨prototype, a, _ :: gs, none⟩) (fun f _ => (f, .done))
        ⟨rfl, List.suffix_rfl⟩ fun _ _ => ⟨⟨rfl, List.suffix_rfl⟩, rfl, rfl, rfl⟩
  · exact nomatch h.opening

theorem At.drop_stays (h : At p (g :: gs) false f) :
    Stays p gs (At p gs false) (f.callOnce .drop) := by
  obtain ⟨prototype, a, grips, _ | o⟩ := f
  · obtain ⟨rfl, rfl, -⟩ := h
    obtain ⟨cell, view, kind⟩ := g
    cases kind <;>
      (rintro _ _ ⟨⟩; exact ⟨⟨rfl, List.suffix_rfl⟩, fun _ => ⟨rfl, rfl, rfl⟩⟩)
  · exact nomatch h.opening

/-! ### Trees -/

section Trees

variable {keyCalls : String → List Call}

/-- The calls for a key open the value of an entry. -/
def KeysStay (p : Prototype) (keyCalls : String → List Call) : Prop :=
  ∀ (g : Grip) (gs : List Grip) (key : String) (f : FlatBuilder), g.kind = .map →
    At p (g :: gs) false f → Stays p (g :: gs) (At p (g :: gs) true) (f.perform (keyCalls key))

theorem keysStay_entry (p : Prototype) : KeysStay p fun key => [.entry key] :=
  fun _ _ key _ kind h => (h.opens_stays (kind ▸ .entry key)).last

theorem keysStay_key (p : Prototype) :
    KeysStay p fun key => [.key, .scalar (.string key), .value] := by
  intro g gs key f kind h
  refine (h.opens_stays (kind ▸ .key)).cons fun f h => ?_
  refine (h.fills_stays (.scalar (.string key))).cons fun f h => ?_
  exact (h.opens_stays (kind ▸ .value)).last

theorem At.finishAndLeave_stays (h : At p (g :: gs) false f) :
    Stays p gs (At p gs false) (f.perform [.finish, .drop]) :=
  (h.finish_stays.mono (List.suffix_cons ..)).cons fun _ h => h.drop_stays.last

mutual

/-- **The calls for a tree leave what was open before**, and nothing else if they are taken. -/
theorem calls_stay (keys : KeysStay p keyCalls) : (d : Datum) → ∀ {gs f}, At p gs true f →
    Stays p gs (At p gs false) (f.perform (d.calls keyCalls))
  | .null, _, _, h => (h.fills_stays .null).last
  | .scalar s, _, _, h => (h.fills_stays (.scalar s)).last
  | .list items, _, _, h =>
    (h.begins_stays .list).cons fun _ ⟨_, kind, h⟩ => itemCalls_stay keys items kind h
  | .map entries, _, _, h =>
    (h.begins_stays .map).cons fun _ ⟨_, kind, h⟩ => entryCalls_stay keys entries kind h

theorem itemCalls_stay (keys : KeysStay p keyCalls) : (items : List Datum) → ∀ {g gs f},
    g.kind = .list → At p (g :: gs) false f →
      Stays p gs (At p gs false) (f.perform (Datum.itemCalls keyCalls items))
  | [], _, _, _, _, h => h.finishAndLeave_stays
  | d :: rest, g, gs, f, kind, h => by
    refine ((h.opens_stays (kind ▸ .item)).mono (List.suffix_cons ..)).cons fun f h => ?_
    exact ((calls_stay keys d h).mono (List.suffix_cons ..)).append fun f h =>
      itemCalls_stay keys rest kind h

theorem entryCalls_stay (keys : KeysStay p keyCalls) : (entries : List (String × Datum)) →
    ∀ {g gs f}, g.kind = .map → At p (g :: gs) false f →
      Stays p gs (At p gs false) (f.perform (Datum.entryCalls keyCalls entries))
  | [], _, _, _, _, h => h.finishAndLeave_stays
  | (key, d) :: rest, g, gs, f, kind, h => by
    rw [Datum.entryCalls]
    refine ((keys g gs key f kind h).mono (List.suffix_cons ..)).append fun f h => ?_
    exact ((calls_stay keys d h).mono (List.suffix_cons ..)).append fun f h =>
      entryCalls_stay keys rest kind h

end

/-! ### The calls for a tree are single -/

theorem single_finishCalls : ∀ c ∈ [Call.finish, .drop], Single c :=
  List.forall_mem_cons.mpr ⟨fun _ => ⟨nofun, nofun⟩,
    List.forall_mem_singleton.mpr fun _ => ⟨nofun, nofun⟩⟩

mutual

theorem single_calls (keys : ∀ key, ∀ c ∈ keyCalls key, Single c) : (d : Datum) →
    ∀ c ∈ d.calls keyCalls, Single c
  | .null => List.forall_mem_singleton.mpr fun _ => ⟨nofun, nofun⟩
  | .scalar _ => List.forall_mem_singleton.mpr fun _ => ⟨nofun, nofun⟩
  | .list items =>
    List.forall_mem_cons.mpr ⟨fun _ => ⟨nofun, nofun⟩, single_itemCalls keys items⟩
  | .map entries =>
    List.forall_mem_cons.mpr ⟨fun _ => ⟨nofun, nofun⟩, single_entryCalls keys entries⟩

theorem single_itemCalls (keys : ∀ key, ∀ c ∈ keyCalls key, Single c) : (items : List Datum) →
    ∀ c ∈ Datum.itemCalls keyCalls items, Single c
  | [] => single_finishCalls
  | d :: rest => List.forall_mem_cons.mpr ⟨fun _ => ⟨nofun, nofun⟩,
      List.forall_mem_append.mpr ⟨single_calls keys d, single_itemCalls keys rest⟩⟩

theorem single_entryCalls (keys : ∀ key, ∀ c ∈ keyCalls key, Single c) :
    (entries : List (String × Datum)) → ∀ c ∈ Datum.entryCalls keyCalls entries, Single c
  | [] => single_finishCalls
  | (key, d) :: rest => List.forall_mem_append.mpr ⟨keys key,
      List.forall_mem_append.mpr ⟨single_calls keys d, single_entryCalls keys rest⟩⟩

end

/-! ## All calls -/

variable {r : Place × PlaceSpec} {w : Opening} {piece : Piece} {q : Progress}
  {enter : MapFrame → String → Except NodeError (MapFrame × Opening)} {d : Datum}

/-- What is filled by several calls is filled as by one. -/
theorem Mirrors.of_filled {place : Place} (nest : Nest p.model a p.root gs hs place w)
    (live : q.Live) (assembled : w.assemble p.model enter d = .ok piece) {a' : Arena}
    (mirrors : Mirrors ⟨p, a', gs, none⟩ (Builder.deliver ⟨p, q, hs, none⟩ piece hs)) :
    Mirrors ⟨p, a', gs, none⟩ (Builder.deliver ⟨p, .amid hs, hs, none⟩ piece hs) := by
  cases hs with
  | nil =>
    obtain rfl : w = p.root := by
      cases nest
      rfl
    obtain ⟨v, rfl⟩ := Opening.assemble_value assembled
    exact mirrors
  | cons h hs =>
    obtain rfl : q = .building := by
      rcases live with rfl | rfl
      · exact nomatch mirrors.stands
      · rfl
    exact mirrors

/-- When calls for a tree fail, what was open before is still open. -/
theorem Mirrors.of_failed {f' : FlatBuilder} {b' : Builder} (mirrors : Mirrors f' b')
    (errored : b'.progress = .errored) (left : f'.prototype = p ∧ gs <:+ f'.grips)
    (alike : Alike gs hs) :
    Mirrors { f' with grips := gs, opening := none } ⟨p, .errored, hs, none⟩ := by
  obtain ⟨rfl, above⟩ := left
  have stage : f'.arena.stage = .errored :=
    mirrors.stands.stage.trans (congrArg Progress.stage errored)
  exact .of_errored mirrors.sound stage (fun g mem => mirrors.alive g (above.subset mem)) alike

/-- **A tree that is assembled by single calls is answered as by the builder.** -/
theorem assemble_answers (sound : a.Sound p.model) (stage : a.stage = (Progress.amid hs).stage)
    (awaits : Awaits p.model p.root gs hs r w a) (entries : Builder.OpensEntries p enter keyCalls)
    (keys : KeysStay p keyCalls) (single : ∀ key, ∀ c ∈ keyCalls key, Single c) (d : Datum) :
    AnswersAs (assemble ⟨p, a, gs, some r⟩ (d.calls keyCalls))
      (Builder.settle ⟨p, .amid hs, hs, none⟩
        (Builder.fillOpening ⟨p, .amid hs, hs, some w⟩ (w.assemble p.model enter d))) := by
  have live := Progress.live_amid hs
  obtain ⟨f', performed, mirrors⟩ :=
    perform_answers (.of_awaits sound stage awaits) (single_calls single d)
  have stays := calls_stay keys d (f := ⟨p, a, gs, some r⟩) ⟨rfl, rfl, rfl⟩ f' _ performed
  have bears : Builder.BearsOut (Builder.filled p hs) (w.assemble p.model enter d) _ :=
    Builder.calls_bearOut entries d live
  have assembled : assemble ⟨p, a, gs, some r⟩ (d.calls keyCalls) =
      some ({ f' with grips := gs, opening := none }, _) := congrArg (Option.map _) performed
  rw [assembled]
  generalize hx : w.assemble p.model enter d = x at bears
  generalize Builder.forEach _ _ _ = result at mirrors stays bears
  cases bears with
  | failed e errored =>
    have failed : Builder.settle ⟨p, .amid hs, hs, none⟩ (.error e) = _ :=
      Builder.settle_failed_live live e
    exact failed ▸ ⟨_, rfl, mirrors.of_failed errored stays.1 awaits.nest.alike⟩
  | ok piece live' =>
    have done : Builder.settle ⟨p, .amid hs, hs, none⟩
        (.ok (Builder.deliver ⟨p, .amid hs, hs, none⟩ piece hs, .done)) = _ :=
      Builder.settle_ok (Builder.ne_errored_of_live live) _
    obtain ⟨p', a', gs', o⟩ := f'
    obtain ⟨rfl, rfl, opening⟩ := stays.2 rfl
    obtain rfl : o = none := Option.isSome_eq_false_iff.mp opening |> Option.isNone_iff_eq_none.mp
    exact done ▸ ⟨_, rfl, mirrors.of_filled awaits.nest live' hx⟩

/-- **A tree is answered as by the builder**, whichever way its entries are opened. -/
theorem tree_answers {f : FlatBuilder} {b : Builder} (mirrors : Mirrors f b)
    (entries : Builder.OpensEntries b.prototype enter keyCalls)
    (keys : KeysStay b.prototype keyCalls) (single : ∀ key, ∀ c ∈ keyCalls key, Single c)
    (opened : ∀ w, b.callOpening w c = { b with opening := none }.settle
      (b.fillOpening (w.assemble b.model enter d)))
    (resting : b.opening = none → b.offers c = false) :
    AnswersAs (f.assemble (d.calls keyCalls)) (b.call c) := by
  obtain ⟨p', a, gs, o⟩ := f
  obtain ⟨p, progress, hs, o'⟩ := b
  obtain ⟨rfl, sound, alive, stands⟩ := mirrors
  have stands : Stands p' a gs o progress hs o' := stands
  have mirrors : Mirrors ⟨p', a, gs, o⟩ ⟨p', progress, hs, o'⟩ := ⟨rfl, sound, alive, stands⟩
  cases stands with
  | opened stage awaits =>
    show AnswersAs _ (Builder.callOpening _ _ c)
    rw [opened]
    exact assemble_answers sound stage awaits entries keys single d
  | initial | resting | finished | errored =>
    rw [Builder.call_of_not_offers (resting rfl)]
    exact ⟨_, rfl, mirrors⟩

end Trees

/-- **A flat builder that mirrors a builder answers every call as the builder does.** -/
theorem call_answers {f : FlatBuilder} {b : Builder} (mirrors : Mirrors f b) (c : Call) :
    AnswersAs (f.call c) (b.call c) := by
  have resting (d : Datum) (unopened : b.opening = none) :
      b.offers (.copy d) = false ∧ b.offers (.fill d) = false := by
    obtain ⟨p, progress, _ | ⟨⟨_ | _, _⟩, _⟩, o⟩ := b <;>
      (cases unopened; exact ⟨rfl, rfl⟩)
  cases c with
  | copy d =>
    refine tree_answers mirrors (Builder.opensEntries_key _) (keysStay_key _) ?_ (fun w => ?_)
      fun unopened => (resting d unopened).1
    · exact fun key => List.forall_mem_cons.mpr ⟨fun _ => ⟨nofun, nofun⟩,
        List.forall_mem_cons.mpr ⟨fun _ => ⟨nofun, nofun⟩,
          List.forall_mem_singleton.mpr fun _ => ⟨nofun, nofun⟩⟩⟩
    · exact congrArg (fun piece => Builder.settle _ (b.fillOpening piece))
        (Opening.copy_eq_assemble d w)
  | fill d =>
    refine tree_answers mirrors (Builder.opensEntries_entry _) (keysStay_entry _) ?_ (fun w => ?_)
      fun unopened => (resting d unopened).2
    · exact fun key => List.forall_mem_singleton.mpr fun _ => ⟨nofun, nofun⟩
    · exact congrArg (fun piece => Builder.settle _ (b.fillOpening piece))
        (Opening.fill_eq_assemble d w)
  | _ => exact callOnce_answers mirrors fun _ => ⟨nofun, nofun⟩

end FlatBuilder

end DualView
