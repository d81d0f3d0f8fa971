/-!
# Lists that are made as far as they are asked for

Whoever takes the first items of a lazy list does not pay for the others. Its view is `toList`, and
every operation comes with a lemma that says what it does to that view, so the order in which items
are made changes nothing but the cost.

A list of one item has a form of its own, `last`, and whatever goes on behind that item takes its
place without leaving anything behind (`flatMap`). A list that is not begun yet is `later`. The two
together let a process that calls itself at its very end run in constant depth: it answers `later`,
and whoever asks for items goes on in a loop.
-/

namespace SchemaGrammar

/-- A list that is made as far as it is asked for. -/
inductive LazyList (α : Type u)
  | nil
  /-- The only item. -/
  | last (a : α)
  | cons (a : α) (rest : Unit → LazyList α)
  /-- A list that is not begun yet. -/
  | later (list : Unit → LazyList α)
  deriving Inhabited

namespace LazyList

/-- All items. -/
def toList : LazyList α → List α
  | nil => []
  | last a => [a]
  | cons a rest => a :: toList (rest ())
  | later list => toList (list ())

@[simp] theorem toList_nil : (nil : LazyList α).toList = [] := rfl

@[simp] theorem toList_last (a : α) : (last a).toList = [a] := rfl

@[simp] theorem toList_cons (a : α) (rest : Unit → LazyList α) :
    (cons a rest).toList = a :: (rest ()).toList := rfl

@[simp] theorem toList_later (list : Unit → LazyList α) :
    (later list).toList = (list ()).toList := rfl

/-- The items of a list. -/
def ofList : List α → LazyList α
  | [] => nil
  | [a] => last a
  | a :: b :: rest => cons a fun _ => ofList (b :: rest)

@[simp] theorem toList_ofList (items : List α) : (ofList items).toList = items := by
  fun_induction ofList items <;> simp_all

/-- The items of one list and then those of another. -/
def append (first : LazyList α) (second : Unit → LazyList α) : LazyList α :=
  match first with
  | nil => later second
  | last a => cons a second
  | cons a rest => cons a fun _ => append (rest ()) second
  | later list => append (list ()) second

@[simp] theorem toList_append (first : LazyList α) (second : Unit → LazyList α) :
    (first.append second).toList = first.toList ++ (second ()).toList := by
  induction first with
  | nil => simp [append]
  | last a => simp [append]
  | cons a rest ih => simp [append, ih]
  | later list ih => simp [append, ih]

/-- What a function makes of every item. -/
def map (f : α → β) : LazyList α → LazyList β
  | nil => nil
  | last a => last (f a)
  | cons a rest => cons (f a) fun _ => map f (rest ())
  | later list => map f (list ())

@[simp] theorem toList_map (f : α → β) (list : LazyList α) :
    (list.map f).toList = list.toList.map f := by
  induction list with
  | nil => rfl
  | last a => rfl
  | cons a rest ih => simp [map, ih]
  | later list ih => simp [map, ih]

/-- The lists that a function makes of the items, one after the other. -/
def flatMap (list : LazyList α) (f : α → LazyList β) : LazyList β :=
  match list with
  | nil => nil
  | last a => f a
  | cons a rest => append (f a) fun _ => flatMap (rest ()) f
  | later list => flatMap (list ()) f

@[simp] theorem toList_flatMap (list : LazyList α) (f : α → LazyList β) :
    (list.flatMap f).toList = list.toList.flatMap fun a => (f a).toList := by
  induction list with
  | nil => rfl
  | last a => simp [flatMap]
  | cons a rest ih => simp [flatMap, ih]
  | later list ih => simp [flatMap, ih]

/-- The items that pass a test. -/
def filter (p : α → Bool) : LazyList α → LazyList α
  | nil => nil
  | last a => if p a then last a else nil
  | cons a rest => if p a then cons a fun _ => filter p (rest ()) else filter p (rest ())
  | later list => filter p (list ())

@[simp] theorem toList_filter (p : α → Bool) (list : LazyList α) :
    (list.filter p).toList = list.toList.filter p := by
  induction list with
  | nil => rfl
  | last a => by_cases h : p a <;> simp [filter, h]
  | cons a rest ih => by_cases h : p a <;> simp [filter, h, ih]
  | later list ih => simp [filter, ih]

/-- The first items; nothing behind the last of them is made. -/
def take (count : Nat) (list : LazyList α) : LazyList α :=
  match count, list with
  | 0, _ => nil
  | _ + 1, nil => nil
  | _ + 1, last a => last a
  | 1, cons a _ => last a
  | count + 2, cons a rest => cons a fun _ => take (count + 1) (rest ())
  | count + 1, later list => take (count + 1) (list ())
termination_by structural list

@[simp] theorem toList_take (count : Nat) (list : LazyList α) :
    (list.take count).toList = list.toList.take count := by
  fun_induction take count list <;> simp_all

/-- The first item, if there is one. -/
def head? : LazyList α → Option α
  | nil => none
  | last a => some a
  | cons a _ => some a
  | later list => head? (list ())

theorem head?_eq (list : LazyList α) : list.head? = list.toList.head? := by
  induction list with
  | nil => rfl
  | last a => rfl
  | cons a rest ih => rfl
  | later list ih => simp [head?, ih]

/-- The list itself, or another one if it is empty. -/
def orElse (list : LazyList α) (other : Unit → LazyList α) : LazyList α :=
  match list with
  | nil => other ()
  | last a => last a
  | cons a rest => cons a rest
  | later list => orElse (list ()) other

theorem toList_orElse (list : LazyList α) (other : Unit → LazyList α) :
    (list.orElse other).toList =
      if list.toList.isEmpty then (other ()).toList else list.toList := by
  induction list with
  | nil => simp [orElse]
  | last a => simp [orElse]
  | cons a rest ih => simp [orElse]
  | later list ih => simp [orElse, ih]

/-! ## Items that may be failures -/

/-- The results up to the first failure, and what is made of that failure in place of the rest. -/
def recover (list : LazyList (Except ε α)) (handler : ε → LazyList (Except ε α)) :
    LazyList (Except ε α) :=
  match list with
  | nil => nil
  | last (.ok a) => last (.ok a)
  | last (.error e) => handler e
  | cons (.ok a) rest => cons (.ok a) fun _ => recover (rest ()) handler
  | cons (.error e) _ => handler e
  | later list => recover (list ()) handler

theorem toList_recover (list : LazyList (Except ε α)) (handler : ε → LazyList (Except ε α)) :
    (list.recover handler).toList = list.toList.takeWhile Except.isOk ++
      match list.toList.dropWhile Except.isOk with
      | .error e :: _ => (handler e).toList
      | _ => [] := by
  induction list with
  | nil => rfl
  | last a =>
    cases a <;> simp [recover, List.takeWhile_cons, List.dropWhile_cons, Except.isOk, Except.toBool]
  | cons a rest ih =>
    cases a with
    | ok a =>
      have : (Except.ok a : Except ε α).isOk = true := rfl
      simp [recover, ih, this]
    | error e =>
      have : (Except.error e : Except ε α).isOk = false := rfl
      simp [recover, this]
  | later list ih => simp [recover, ih]

/-- All results, or the first failure; `done` holds those found so far, the last one first. -/
def collectOnto (done : List α) : LazyList (Except ε α) → Except ε (List α)
  | nil => .ok done.reverse
  | last (.ok a) => .ok (a :: done).reverse
  | last (.error e) => .error e
  | cons (.ok a) rest => collectOnto (a :: done) (rest ())
  | cons (.error e) _ => .error e
  | later list => collectOnto done (list ())

/-- All results, or the first failure. -/
def collect (list : LazyList (Except ε α)) : Except ε (List α) := collectOnto [] list

theorem collectOnto_eq (done : List α) (list : LazyList (Except ε α)) :
    collectOnto done list = (list.toList.mapM id).map (done.reverse ++ ·) := by
  induction list generalizing done with
  | nil => simp [collectOnto, pure, Except.pure, Except.map]
  | last a => cases a <;> simp [collectOnto, bind, Except.bind, pure, Except.pure, Except.map]
  | cons a rest ih =>
    cases a with
    | error e => simp [collectOnto, bind, Except.bind, Except.map]
    | ok a =>
      simp only [collectOnto, ih, toList_cons, List.mapM_cons, id, bind, Except.bind]
      cases (rest ()).toList.mapM id <;> simp [Except.map, pure, Except.pure]
  | later list ih => simp [collectOnto, ih]

/-- Collecting fails with the first failure in the list, and gives its results if there is none. -/
theorem collect_eq (list : LazyList (Except ε α)) : list.collect = list.toList.mapM id := by
  rw [collect, collectOnto_eq]
  cases list.toList.mapM id <;> rfl

end LazyList

end SchemaGrammar
