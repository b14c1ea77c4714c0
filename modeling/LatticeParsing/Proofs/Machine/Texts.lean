/-
Cutting the text of a lattice, with positions in bytes.

The machine goes through the characters of a text with their positions, notes
where an outermost tuple starts and, when it ends, cuts its inside out of the
text by two positions. It would stop if a position lay within a character or
beyond the text, or if the start lay behind the end (`slice?`).

The invariant: the characters read so far are those up to the start that has
been noted, which is the position behind an opening parenthesis, and then those
of the tuple that is being read. So both positions stand between two
characters, and what is cut is what has been read in between
(`cutFrom?_returns`).
-/
import LatticeParsing.Proofs.Lattice.Cutting
import LatticeParsing.Proofs.Machine.Words

namespace LatticeParsing.Machine

open LatticeText

-- ================================================================ slices

/-- The number of bytes of a text. -/
def bytes : List Char → Nat
  | [] => 0
  | c :: cs => c.utf8Size + bytes cs

/-- A text without its first `n` bytes. -/
def dropBytes? : Nat → List Char → Option (List Char)
  | 0, cs => some cs
  | _ + 1, [] => none
  | n + 1, c :: cs =>
    if c.utf8Size ≤ n + 1 then dropBytes? (n + 1 - c.utf8Size) cs else none

/-- The first `n` bytes of a text. -/
def takeBytes? : Nat → List Char → Option (List Char)
  | 0, _ => some []
  | _ + 1, [] => none
  | n + 1, c :: cs =>
    if c.utf8Size ≤ n + 1 then
      (takeBytes? (n + 1 - c.utf8Size) cs).map (c :: ·)
    else none

/-- The part of a text between two positions. There is none unless both stand
between characters of the text, in this order. -/
def slice? (text : List Char) (start stop : Nat) : Option (List Char) := do
  let length ← sub? stop start
  takeBytes? length (← dropBytes? start text)

@[simp]
theorem bytes_nil : bytes [] = 0 := rfl

@[simp]
theorem bytes_cons (c : Char) (cs : List Char) :
    bytes (c :: cs) = c.utf8Size + bytes cs := rfl

/-- This is the byte length by which the messages go. -/
theorem bytes_eq_byteLength (cs : List Char) :
    bytes cs = Text.byteLength cs := by
  induction cs with
  | nil => rfl
  | cons c cs ih => rw [bytes_cons, ih, Text.byteLength_cons]

@[simp]
theorem bytes_append (cs ds : List Char) :
    bytes (cs ++ ds) = bytes cs + bytes ds := by
  simp only [bytes_eq_byteLength, Text.byteLength_append]

@[simp]
theorem bytes_reverse (cs : List Char) : bytes cs.reverse = bytes cs := by
  induction cs with
  | nil => rfl
  | cons c cs ih =>
      rw [List.reverse_cons, bytes_append, ih, bytes_cons, bytes_cons,
        bytes_nil]
      omega

/-- A text with a character in it has a byte. -/
theorem exists_bytes_cons (c : Char) (cs : List Char) :
    ∃ n, bytes (c :: cs) = n + 1 :=
  Nat.exists_eq_add_one.2 (Nat.lt_add_right _ c.utf8Size_pos)

theorem dropBytes?_append (cs ds : List Char) :
    dropBytes? (bytes cs) (cs ++ ds) = some ds := by
  induction cs with
  | nil => cases ds <;> rfl
  | cons c cs ih =>
      obtain ⟨n, hn⟩ := exists_bytes_cons c cs
      rw [hn, List.cons_append]
      unfold dropBytes?
      rw [← hn, bytes_cons, if_pos (by omega), Nat.add_sub_cancel_left, ih]

theorem takeBytes?_append (cs ds : List Char) :
    takeBytes? (bytes cs) (cs ++ ds) = some cs := by
  induction cs with
  | nil => cases ds <;> rfl
  | cons c cs ih =>
      obtain ⟨n, hn⟩ := exists_bytes_cons c cs
      rw [hn, List.cons_append]
      unfold takeBytes?
      rw [← hn, bytes_cons, if_pos (by omega), Nat.add_sub_cancel_left, ih]
      rfl

/-- Positions between characters cut a text there. -/
theorem slice?_append (front part back : List Char) :
    slice? (front ++ part ++ back) (bytes front) (bytes front + bytes part)
      = some part := by
  unfold slice?
  rw [sub?_eq (Nat.le_add_right ..), Nat.add_sub_cancel_left, List.append_assoc,
    dropBytes?_append]
  exact takeBytes?_append part back

-- =============================================================== cutting

/-- Cuts a text that stands at the position `base` into its outermost tuples.
The rest of the text begins `i` bytes into it; `depth` and `quoting` tell what
is open there, and `start` where the last outermost tuple began. -/
def cutFrom? (top : Nat) (text : List Char) (base i depth start : Nat)
    (quoting : Quoting) : List Char → Option (Except LatticeError (List Tuple))
  | [] =>
    if 0 < depth ∨ quoting ≠ .bare then do
      let pos ← add? top base (bytes text)
      return .error (.malformed pos .unterminated)
    else some (.ok [])
  | c :: cs =>
    let next := i + c.utf8Size
    match quoting with
    | .escaped mark =>
      cutFrom? top text base next depth start (.quoted mark) cs
    | .quoted mark =>
      cutFrom? top text base next depth start (.next mark c) cs
    | .bare =>
      if (c == '\'' || c == '"') && 0 < depth then
        cutFrom? top text base next depth start (.quoted c) cs
      else if c == '(' then do
        let start ← if depth = 0 then add? top i 1 else some start
        let depth ← add? top depth 1
        cutFrom? top text base next depth start .bare cs
      else if c == ')' then
        if depth = 0 then do
          let pos ← add? top base i
          return .error (.malformed pos .unbalanced)
        else do
          let depth ← sub? depth 1
          if depth = 0 then do
            let body ← slice? text start i
            let offset ← add? top base start
            let rest ← cutFrom? top text base next 0 start .bare cs
            return rest.map (⟨offset, body⟩ :: ·)
          else cutFrom? top text base next depth start .bare cs
      else if depth = 0 && !isSeparator c then do
        let pos ← add? top base i
        return .error (.malformed pos (.unexpected c))
      else cutFrom? top text base next depth start .bare cs

/-- Where the machine stands in a text: it has read `front` and then the
characters of `body`, last first, which belong to the tuple that is open. -/
structure Reads (text front body cs : List Char) (i depth start : Nat)
    (quoting : Quoting) : Prop where
  text_eq : text = front ++ body.reverse ++ cs
  index_eq : i = bytes front + bytes body
  start_eq : 0 < depth → start = bytes front ∧ 0 < start
  bare : depth = 0 → quoting = .bare
  depth_le : depth ≤ i

namespace Reads

variable {text front body cs : List Char} {i depth start : Nat}
  {quoting : Quoting} {c : Char}

/-- A character of the tuple that is open has been read. -/
theorem inner (h : Reads text front body (c :: cs) i depth start quoting)
    {depth' : Nat} {quoting' : Quoting} (hpos : 0 < depth) (hpos' : 0 < depth')
    (hle : depth' ≤ depth + 1) :
    Reads text front (c :: body) cs (i + c.utf8Size) depth' start quoting' where
  text_eq := by simpa using h.text_eq
  index_eq := by rw [h.index_eq, bytes_cons]; omega
  start_eq := fun _ => h.start_eq hpos
  bare := fun hzero => absurd hzero (by omega)
  depth_le := by
    have hsize := c.utf8Size_pos
    have hdepth := h.depth_le
    omega

/-- A character has been read behind which no tuple is open, or one that has
just been opened. -/
theorem outer (h : Reads text front body (c :: cs) i depth start quoting)
    {depth' start' : Nat} (hle : depth' ≤ 1)
    (hstart : 0 < depth' → start' = i + c.utf8Size) :
    Reads text (front ++ body.reverse ++ [c]) [] cs (i + c.utf8Size) depth'
      start' .bare where
  text_eq := by simpa using h.text_eq
  index_eq := by simp [h.index_eq, Nat.add_assoc]
  start_eq := fun hpos => by
    have hsize := c.utf8Size_pos
    rw [hstart hpos]
    exact ⟨by simp [h.index_eq, Nat.add_assoc], by omega⟩
  bare := fun _ => rfl
  depth_le := by
    have hsize := c.utf8Size_pos
    omega

theorem index_le (h : Reads text front body cs i depth start quoting) :
    i + bytes cs = bytes text := by
  rw [h.text_eq, h.index_eq]
  simp [Nat.add_assoc]

end Reads

/-- Whether tuples stand behind the first byte of a text and before a
position. -/
def EndBy (stop : Nat) (ts : Except LatticeError (List Tuple)) : Prop :=
  ∀ xs, ts = .ok xs →
    ∀ t ∈ xs, 0 < t.offset ∧ t.offset + bytes t.body ≤ stop

theorem endBy_error (stop : Nat) (e : LatticeError) : EndBy stop (.error e) :=
  fun xs hxs => by cases hxs

/-- Whether the machine, where it stands in a text, cuts the rest as it is to
be cut, and does not stop. `pos` is the position of the tuple that is open, and
`body` what has been read of it. -/
def Cuts (top base : Nat) (text : List Char) (i depth start pos : Nat)
    (quoting : Quoting) (body cs : List Char) : Prop :=
  Returns (cutFrom? top text base i depth start quoting cs) fun ts =>
    ts = tuplesFrom (base + i) depth quoting pos body cs
      ∧ EndBy (base + bytes text) ts

section

variable {top base : Nat} {text front body cs : List Char} {c : Char}
  {i depth start pos d : Nat} {quoting : Quoting}

/-- At the end of the text no tuple may be open. -/
theorem cuts_nil (h : Reads text front body [] i depth start quoting)
    (htop : base + bytes text ≤ top) :
    Cuts top base text i depth start pos quoting body [] := by
  have hend := h.index_le
  unfold Cuts cutFrom? tuplesFrom
  by_cases hdepth : depth = 0
  · have hbare := h.bare hdepth
    subst hdepth hbare
    refine ⟨.ok [], by simp, by simp, fun xs hxs t ht => ?_⟩
    injection hxs with hxs
    rw [← hxs] at ht
    cases ht
  · rw [if_pos (Or.inl (Nat.pos_of_ne_zero hdepth)), if_neg hdepth,
      add?_eq htop]
    refine ⟨_, rfl, ?_, endBy_error _ _⟩
    rw [← hend]
    rfl

/-- At the parenthesis that ends an outermost tuple, the machine cuts out what
it has read of the tuple. -/
theorem cuts_close (h : Reads text front body (')' :: cs) i 1 start .bare)
    (htop : base + bytes text ≤ top) (hpos : pos = base + start)
    (hrest : Cuts top base text (i + ')'.utf8Size) 0 start pos .bare [] cs) :
    Cuts top base text i 1 start pos .bare body (')' :: cs) := by
  have hend := h.index_le
  have hindex := h.index_eq
  obtain ⟨hstart, hpositive⟩ := h.start_eq Nat.one_pos
  obtain ⟨rest, hcut, rfl, hbefore⟩ := hrest
  have hslice : slice? text start i = some body.reverse := by
    rw [h.text_eq, hstart, hindex, ← bytes_reverse body]
    exact slice?_append ..
  refine ⟨_, ?_, (tuplesFrom_outer_close ..).symm, fun xs hxs t ht => ?_⟩
  · simp [cutFrom?, sub?_eq (Nat.le_refl 1), hslice, hcut,
      add?_eq (show base + start ≤ top by omega), hpos]
    rfl
  · obtain ⟨ts, hts, rfl⟩ := map_eq_ok.1 hxs
    rcases List.mem_cons.1 ht with rfl | ht
    · simp only [bytes_reverse]
      exact ⟨by omega, by omega⟩
    · exact hbefore ts hts t ht

/-- Outside of all tuples one may begin, and nothing else but separators may
stand. -/
theorem cuts_outside (h : Reads text front body (c :: cs) i 0 start .bare)
    (htop : base + bytes text ≤ top)
    (hopened : Cuts top base text (i + c.utf8Size) 1 (i + c.utf8Size)
      (base + (i + c.utf8Size)) .bare [] cs)
    (hnext : Cuts top base text (i + c.utf8Size) 0 start pos .bare [] cs) :
    Cuts top base text i 0 start pos .bare body (c :: cs) := by
  have hend := h.index_le
  have hsize := c.utf8Size_pos
  rw [bytes_cons] at hend
  have hstop : base + i ≤ top := by omega
  unfold Cuts at hopened hnext ⊢
  by_cases hopen : c = '('
  · subst hopen
    have hone : '('.utf8Size = 1 := rfl
    rw [hone] at hopened
    rw [tuplesFrom_outer_open, Nat.add_assoc]
    simpa [cutFrom?, hone, add?_eq (show i + 1 ≤ top by omega),
      add?_eq (show 0 + 1 ≤ top by omega)] using hopened
  by_cases hclose : c = ')'
  · subst hclose
    refine ⟨.error (.malformed (base + i) .unbalanced), ?_, rfl,
      endBy_error _ _⟩
    simp [cutFrom?, add?_eq hstop]
  rw [tuplesFrom_outer hopen hclose]
  cases hsep : isSeparator c with
  | false =>
      refine ⟨_, ?_, rfl, endBy_error _ _⟩
      simp [cutFrom?, hopen, hclose, hsep, add?_eq hstop]
  | true => simpa [cutFrom?, hopen, hclose, hsep, Nat.add_assoc] using hnext

/-- Inside of a tuple the depth rises by one at most, and all that is read
belongs to the tuple until it ends. -/
theorem cuts_inside
    (h : Reads text front body (c :: cs) i (d + 1) start quoting)
    (htop : base + bytes text ≤ top) (hpos : pos = base + start)
    (hinner : ∀ d' quoting', d' ≤ d + 1 →
      Cuts top base text (i + c.utf8Size) (d' + 1) start pos quoting'
        (c :: body) cs)
    (hnext : Cuts top base text (i + c.utf8Size) 0 start pos .bare [] cs) :
    Cuts top base text i (d + 1) start pos quoting body (c :: cs) := by
  have hend := h.index_le
  have hsize := c.utf8Size_pos
  have hdepth := h.depth_le
  rw [bytes_cons] at hend
  unfold Cuts at hinner ⊢
  simp only [← Nat.add_assoc base] at hinner
  cases quoting with
  | escaped mark => exact hinner d (.quoted mark) (Nat.le_succ d)
  | quoted mark => exact hinner d (.next mark c) (Nat.le_succ d)
  | bare =>
      by_cases hmark : c = '\'' ∨ c = '"'
      · rw [tuplesFrom_mark hmark]
        simpa [cutFrom?, hmark] using hinner d (.quoted c) (Nat.le_succ d)
      by_cases hopen : c = '('
      · subst hopen
        have hone : '('.utf8Size = 1 := rfl
        rw [tuplesFrom_open]
        simpa [cutFrom?, hone, add?_eq (show d + 1 + 1 ≤ top by omega)]
          using hinner (d + 1) .bare (Nat.le_refl _)
      by_cases hclose : c = ')'
      · subst hclose
        have hone : ')'.utf8Size = 1 := rfl
        cases d with
        | zero => exact cuts_close h htop hpos hnext
        | succ d =>
            rw [tuplesFrom_close]
            simpa [cutFrom?, hone, sub?_eq (show 1 ≤ d + 1 + 1 by omega)]
              using hinner d .bare (by omega)
      · have hplain : Plain c := by
          simp only [Plain, List.mem_cons, List.not_mem_nil, or_false, not_or]
          exact ⟨hopen, hclose, not_or.1 hmark⟩
        rw [tuplesFrom_plain hplain]
        simpa [cutFrom?, hmark, hopen, hclose]
          using hinner d .bare (Nat.le_succ d)

/-- The machine cuts the rest of a text as it is to be cut, and does not
stop. -/
theorem cutFrom?_returns (h : Reads text front body cs i depth start quoting)
    (htop : base + bytes text ≤ top) (hpos : 0 < depth → pos = base + start) :
    Cuts top base text i depth start pos quoting body cs := by
  induction cs generalizing front body i depth start pos quoting with
  | nil => exact cuts_nil h htop
  | cons c cs ih =>
      have hnext :
          Cuts top base text (i + c.utf8Size) 0 start pos .bare [] cs :=
        ih (h.outer (Nat.zero_le _) fun hzero => absurd hzero (lt_irrefl 0))
          fun hzero => absurd hzero (lt_irrefl 0)
      cases depth with
      | zero =>
          obtain rfl := h.bare rfl
          refine cuts_outside h htop ?_ hnext
          exact ih (h.outer (Nat.le_refl 1) fun _ => rfl) fun _ => rfl
      | succ d =>
          have hopen := hpos (Nat.succ_pos d)
          refine cuts_inside h htop hopen (fun d' quoting' hle => ?_) hnext
          exact ih (h.inner (Nat.succ_pos d) (Nat.succ_pos d') (by omega))
            fun _ => hopen

end

-- =============================================================== levels

/-- Cuts the inside of a tuple into its outermost tuples. -/
def tuples? (top : Nat) (t : Tuple) :
    Option (Except LatticeError (List Tuple)) :=
  cutFrom? top t.body t.offset 0 0 0 .bare t.body

/-- Reads the arcs of the nodes from `tail` on. -/
def nodes? (top : Nat) (v : Vocabulary) (tail : Nat) :
    List Tuple → Option (Vocabulary × Except LatticeError (List Arc))
  | [] => some (v, .ok [])
  | t :: ts => do
    match ← tuples? top t with
    | .error e => return (v, .error e)
    | .ok arcTuples =>
      match arcs v tail arcTuples with
      | (v, .error e) => return (v, .error e)
      | (v, .ok here) =>
        let (v, rest) ← nodes? top v (tail + 1) ts
        return (v, rest.map (here ++ ·))

/-- Cuts a text into the tuples of its nodes. -/
def nodeTuples? (top : Nat) (text : List Char) :
    Option (Except LatticeError (List Tuple)) := do
  match ← tuples? top ⟨0, text⟩ with
  | .error e => return .error e
  | .ok [outer] => tuples? top outer
  | .ok outer => return .error (.malformed 0 (.outerTuples outer.length))

theorem tuples?_returns {top : Nat} {t : Tuple}
    (h : t.offset + bytes t.body ≤ top) :
    Returns (tuples? top t) fun ts =>
      ts = tuples t ∧ EndBy (t.offset + bytes t.body) ts := by
  have hstart : Reads t.body [] [] t.body 0 0 0 .bare :=
    ⟨rfl, rfl, nofun, fun _ => rfl, Nat.le_refl 0⟩
  exact cutFrom?_returns hstart h fun hpos => absurd hpos (Nat.lt_irrefl 0)

/-- Reading the nodes of a text does not stop, whatever they hold. -/
theorem nodes?_eq {top : Nat} (v : Vocabulary) (tail : Nat) {ts : List Tuple}
    (h : ∀ t ∈ ts, 0 < t.offset ∧ t.offset + bytes t.body ≤ top) :
    nodes? top v tail ts = some (nodes v tail ts) := by
  induction ts generalizing v tail with
  | nil => rfl
  | cons t ts ih =>
      rw [List.forall_mem_cons] at h
      obtain ⟨cut, hcut, rfl, -⟩ := tuples?_returns h.1.2
      unfold nodes? nodes
      rw [hcut]
      cases tuples t with
      | error e => rfl
      | ok arcTuples =>
          simp only [Option.bind_eq_bind, Option.bind_some]
          cases hread : arcs v tail arcTuples with
          | mk v' here =>
              cases here with
              | error e => rfl
              | ok here => simp only [ih v' (tail + 1) h.2]; rfl

/-- A text has fewer tuples than bytes. -/
theorem length_le_of_tuplesFrom {pos depth start : Nat} {quoting : Quoting}
    {body cs : List Char} {ts : List Tuple}
    (h : tuplesFrom pos depth quoting start body cs = .ok ts) :
    ts.length ≤ bytes cs := by
  -- a tuple ends with a character of its own, a closing parenthesis
  fun_induction tuplesFrom generalizing ts
  case case8 c _ _ _ _ ih =>
    obtain ⟨rest, hrest, rfl⟩ := map_eq_ok.1 h
    have hlen := ih hrest
    have hsize := c.utf8Size_pos
    simp only [List.length_cons, bytes_cons]
    omega
  case case3 ih | case4 ih | case5 ih | case6 ih | case9 ih | case10 ih
      | case12 ih | case13 ih =>
    exact Nat.le_trans (ih h) (Nat.le_add_left ..)
  all_goals cases h
  exact Nat.zero_le _

/-- The tuples of the nodes are cut out without a stop. They lie within the
text, and are fewer than its bytes. -/
theorem nodeTuples?_returns {top : Nat} {text : List Char}
    (h : bytes text ≤ top) :
    Returns (nodeTuples? top text) fun ts =>
      ts = nodeTuples text ∧ EndBy top ts ∧
        ∀ xs, ts = .ok xs → xs.length + 1 ≤ top := by
  have hwhole : (Tuple.mk 0 text).offset + bytes (Tuple.mk 0 text).body ≤ top :=
    by simpa using h
  obtain ⟨cut, hcut, rfl, hbefore⟩ := tuples?_returns hwhole
  unfold nodeTuples? nodeTuples
  rw [hcut]
  cases houter : tuples ⟨0, text⟩ with
  | error e => exact ⟨_, rfl, rfl, endBy_error _ _, nofun⟩
  | ok outer =>
      match outer with
      | [] => exact ⟨_, rfl, rfl, endBy_error _ _, nofun⟩
      | [t] =>
          obtain ⟨hpos, ht⟩ := hbefore [t] houter t (List.mem_singleton_self t)
          have hend := Nat.le_trans ht hwhole
          refine (tuples?_returns hend).imp fun ts hts =>
            ⟨hts.1, fun xs hxs x hx => ?_, fun xs hxs => ?_⟩
          · obtain ⟨hx, hx'⟩ := hts.2 xs hxs x hx
            exact ⟨hx, Nat.le_trans hx' hend⟩
          · have hlen := length_le_of_tuplesFrom (hts.1.symm.trans hxs)
            omega
      | t :: u :: outer => exact ⟨_, rfl, rfl, endBy_error _ _, nofun⟩

-- ================================================================= texts

/-- The number of nodes and the arcs that a text tells of. -/
def readText (v : Vocabulary) (text : List Char) :
    Vocabulary × Except LatticeError (Nat × List Arc) :=
  match nodeTuples text with
  | .error e => (v, .error e)
  | .ok ts =>
    let (v, arcs) := nodes v 0 ts
    (v, arcs.map fun as => (ts.length + 1, as))

/-- Reads the number of nodes and the arcs from a text. -/
def readText? (top : Nat) (v : Vocabulary) (text : List Char) :
    Option (Vocabulary × Except LatticeError (Nat × List Arc)) := do
  match ← nodeTuples? top text with
  | .error e => return (v, .error e)
  | .ok ts =>
    let (v, arcs) ← nodes? top v 0 ts
    let count ← add? top ts.length 1
    return (v, arcs.map fun as => (count, as))

/-- The lattice of a text is made of what is read from it. -/
theorem ofText_eq (v : Vocabulary) (text : String) :
    Lattice.ofText v text = ((readText v text.toList).1,
      (readText v text.toList).2.bind fun read =>
        Lattice.ofArcs read.1 read.2) := by
  unfold Lattice.ofText readText
  cases nodeTuples text.toList with
  | error e => rfl
  | ok ts =>
      simp only
      cases (nodes v 0 ts).2 <;> rfl

/-- No text stops the machine while it reads. -/
theorem readText?_eq {top : Nat} {text : List Char} (h : bytes text ≤ top)
    (v : Vocabulary) : readText? top v text = some (readText v text) := by
  obtain ⟨cut, hcut, rfl, hends, hlen⟩ := nodeTuples?_returns h
  unfold readText? readText
  rw [hcut]
  cases hts : nodeTuples text with
  | error e => rfl
  | ok ts =>
      simp only [Option.bind_eq_bind, Option.bind_some,
        nodes?_eq v 0 (hends ts hts), add?_eq (hlen ts hts)]
      rfl

end LatticeParsing.Machine
