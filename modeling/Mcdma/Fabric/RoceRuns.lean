import Mcdma.Fabric.Roce

/-!
# Pieces tile their range and signals keep their words

The pieces of a range lie end to end on both sides, each inside one
registration.  A queue holds far fewer requests than the ring has words, so the
word of a signal is free again before its turn comes round.
-/

namespace Mcdma
namespace Fabric
namespace Roce

open Tiling

/-! ## Where a range is cut -/

/-- Where a piece starts on both sides, and its bytes. -/
structure Span where
  off : Nat
  roff : Nat
  len : Nat

/-- The bytes lie in one registration of `seg` bytes. -/
def InOne (seg off len : Nat) : Prop := off + len ≤ (off / seg + 1) * seg

/-- The spans lie end to end on both sides; each stays inside the limit and one
registration on each side, and is described by the keys of these. -/
structure Cuts (region : Region) (remote : Table) (max off roff len : Nat)
    (spans : List Span) : Prop where
  near : Tiles off (off + len) (spans.map fun s => (s.off, s.len))
  far : Tiles roff (roff + len) (spans.map fun s => (s.roff, s.len))
  limit : ∀ s ∈ spans, s.len ≤ max
  one : ∀ s ∈ spans, InOne region.seg s.off s.len ∧
    InOne remote.seg s.roff s.len
  keys : ∀ s ∈ spans,
    region.lkeys[s.off / region.seg]? =
        some (pieceAt region (some remote) s.off s.roff s.len).lkey ∧
      remote.rkeys[s.roff / remote.seg]? =
        some (pieceAt region (some remote) s.off s.roff s.len).rkey
  size : ∀ s ∈ spans,
    (pieceAt region (some remote) s.off s.roff s.len).len.toNat = s.len

/-- The piece of a span. -/
def Span.piece (region : Region) (remote : Table) (s : Span) : Piece :=
  pieceAt region (some remote) s.off s.roff s.len

section

variable {region : Region} {remote : Table} {max off roff len take : Nat}

/-- What one piece takes stays inside one registration. -/
theorem inOne_of_room {seg : Nat} (positive : 0 < seg)
    (fits : take ≤ seg - off % seg) : InOne seg off take := by
  have whole := Nat.div_add_mod off seg
  have part := Nat.mod_lt off positive
  rw [Nat.mul_comm] at whole
  rw [InOne, Nat.add_mul, Nat.one_mul]
  omega

variable (region remote off roff) in
theorem takeOf_bounds (nonzero : 0 < len) (positive : 0 < max) :
    0 < takeOf region (some remote) max off roff len ∧
      takeOf region (some remote) max off roff len ≤ len ∧
      takeOf region (some remote) max off roff len ≤ max ∧
      takeOf region (some remote) max off roff len ≤
        region.seg - off % region.seg ∧
      takeOf region (some remote) max off roff len ≤
        remote.seg - roff % remote.seg := by
  have lpart := Nat.mod_lt off region.segPos
  have rpart := Nat.mod_lt roff remote.segPos
  dsimp only [takeOf]
  omega

/-- What a piece takes fits in one more piece. -/
theorem takeOf_takeOf :
    takeOf region (some remote) max off roff
        (takeOf region (some remote) max off roff len) =
      takeOf region (some remote) max off roff len := by
  dsimp only [takeOf]
  omega

/-- A registration's key is there for every byte of the region. -/
theorem getElem?_key {keys : List UInt32} {seg limit : Nat}
    (covers : limit ≤ keys.length * seg)
    (inside : off < limit) :
    keys[off / seg]? = some (keys.getD (off / seg) 0) := by
  have below : off / seg < keys.length := by
    refine Nat.div_lt_of_lt_mul ?_
    rw [Nat.mul_comm]
    omega
  rw [List.getD_eq_getElem?_getD, List.getElem?_eq_getElem below]
  rfl

theorem Cuts.nil : Cuts region remote max off roff 0 [] where
  near := rfl
  far := rfl
  limit := by simp
  one := by simp
  keys := by simp
  size := by simp

/-- One more piece in front. -/
theorem Cuts.cons {spans : List Span} (nonzero : 0 < len) (positive : 0 < max)
    (word : max < 2 ^ 32) (inside : off + len ≤ region.length)
    (insideRemote : roff + len ≤ remote.length)
    (rest : Cuts region remote max
      (off + takeOf region (some remote) max off roff len)
      (roff + takeOf region (some remote) max off roff len)
      (len - takeOf region (some remote) max off roff len) spans) :
    Cuts region remote max off roff len
      (⟨off, roff, takeOf region (some remote) max off roff len⟩ ::
        spans) := by
  obtain ⟨least, most, limit, lroom, rroom⟩ :=
    takeOf_bounds region remote off roff nonzero positive
  generalize takeOf region (some remote) max off roff len = take at *
  have stop : off + take + (len - take) = off + len := by omega
  have rstop : roff + take + (len - take) = roff + len := by omega
  have tiles := rest.near
  have rtiles := rest.far
  rw [stop] at tiles
  rw [rstop] at rtiles
  refine ⟨⟨rfl, least, tiles⟩, ⟨rfl, least, rtiles⟩, ?_, ?_, ?_, ?_⟩
  · exact List.forall_mem_cons.mpr ⟨limit, rest.limit⟩
  · exact List.forall_mem_cons.mpr
      ⟨⟨inOne_of_room region.segPos lroom, inOne_of_room remote.segPos rroom⟩,
        rest.one⟩
  · exact List.forall_mem_cons.mpr
      ⟨⟨getElem?_key region.covers (by dsimp only; omega),
        getElem?_key remote.covers (by dsimp only; omega)⟩,
        rest.keys⟩
  · refine List.forall_mem_cons.mpr ⟨?_, rest.size⟩
    have small : take < UInt32.size :=
      Nat.lt_of_le_of_lt limit word
    exact UInt32.toNat_ofNat_of_lt' small

/-- Without a limit above zero nothing is cut. -/
theorem cut_zero {cap : Nat} (nonzero : len ≠ 0) :
    cut region (some remote) 0 cap off roff len = none := by
  induction cap generalizing off roff len with
  | zero => rw [cut, if_neg nonzero]
  | succ cap inductionHypothesis =>
      have nothing : takeOf region (some remote) 0 off roff len = 0 := by
        dsimp only [takeOf]
        omega
      rw [cut, if_neg nonzero]
      dsimp only
      rw [nothing, Nat.sub_zero, inductionHypothesis nonzero]
      rfl

/-- `cut` makes pieces that tile the range. -/
theorem cut_ok (word : max < 2 ^ 32) {cap : Nat} {pieces : List Piece}
    (inside : off + len ≤ region.length)
    (insideRemote : roff + len ≤ remote.length)
    (done : cut region (some remote) max cap off roff len = some pieces) :
    ∃ spans, Cuts region remote max off roff len spans ∧
      pieces = spans.map (Span.piece region remote) := by
  induction cap generalizing off roff len pieces with
  | zero =>
      rw [cut] at done
      split at done
      · next isZero =>
          subst isZero
          obtain rfl := Option.some.inj done
          exact ⟨[], Cuts.nil, rfl⟩
      · cases done
  | succ cap inductionHypothesis =>
      rw [cut] at done
      split at done
      · next isZero =>
          subst isZero
          obtain rfl := Option.some.inj done
          exact ⟨[], Cuts.nil, rfl⟩
      · next nonzero =>
          dsimp only at done
          obtain ⟨more, later, rfl⟩ := Option.map_eq_some_iff.mp done
          rcases Nat.eq_zero_or_pos max with rfl | positive
          · have nothing : takeOf region (some remote) 0 off roff len = 0 := by
              dsimp only [takeOf]
              omega
            rw [nothing, Nat.sub_zero, cut_zero nonzero] at later
            cases later
          · have bounds := takeOf_bounds region remote off roff
              (Nat.pos_of_ne_zero nonzero) positive
            obtain ⟨spans, cuts, rfl⟩ := inductionHypothesis
              (by omega) (by omega) later
            exact ⟨_, cuts.cons (Nat.pos_of_ne_zero nonzero) positive word inside
              insideRemote, rfl⟩

end

/-! ## The send queue -/

/-- Requests were added, and no more of them are outstanding. -/
structure Grows (e e' : Endpoint) (added : List (Op × Piece)) : Prop where
  posts : e'.posts = e.posts ++ added
  outstanding : e'.outstanding ≤ e.outstanding + added.length

section

variable {e e' : Endpoint} {env env' : Env} {fine : Bool} {op : Op}
  {piece : Piece} {added more : List (Op × Piece)}

theorem Grows.refl (e : Endpoint) : Grows e e [] :=
  ⟨(List.append_nil _).symm, Nat.le_refl _⟩

theorem Grows.trans {e'' : Endpoint} (first : Grows e e' added)
    (second : Grows e' e'' more) : Grows e e'' (added ++ more) := by
  refine ⟨?_, ?_⟩
  · rw [second.posts, first.posts, List.append_assoc]
  · have here := first.outstanding
    have later := second.outstanding
    rw [List.length_append]
    omega

/-- The polling loop posts nothing, and reaps what it was asked for. -/
theorem reapFrom_spec {want got : Nat} {turns rest : List Turn}
    (done : reapFrom want turns got e = some (fine, e', rest)) :
    Grows e e' [] ∧
      (fine = true → e'.outstanding + want ≤ e.outstanding + got) := by
  induction turns generalizing got e with
  | nil => cases done
  | cons turn turns inductionHypothesis =>
      rw [reapFrom] at done
      split at done
      · simp only [Option.some.injEq, Prod.mk.injEq] at done
        obtain ⟨rfl, rfl, -⟩ := done
        exact ⟨Grows.refl e, by simp⟩
      · next polled =>
          have nonzero : 0 < e.outstanding := by
            by_contra isZero
            rw [if_neg isZero] at polled
            cases polled
          obtain ⟨grows, reaped⟩ := inductionHypothesis done
          refine ⟨⟨grows.posts, ?_⟩, fun ok => ?_⟩
          · have least := grows.outstanding
            dsimp only at least
            omega
          · have least := reaped ok
            dsimp only at least
            omega
      · simp only [Option.some.injEq, Prod.mk.injEq] at done
        obtain ⟨rfl, rfl, -⟩ := done
        refine ⟨⟨(List.append_nil _).symm, ?_⟩, by simp⟩
        dsimp only
        omega
      · split at done
        · next enough =>
            simp only [Option.some.injEq, Prod.mk.injEq] at done
            obtain ⟨-, rfl, -⟩ := done
            exact ⟨Grows.refl e, fun _ => by omega⟩
        · split at done
          · simp only [Option.some.injEq, Prod.mk.injEq] at done
            obtain ⟨rfl, rfl, -⟩ := done
            exact ⟨Grows.refl e, by simp⟩
          · exact inductionHypothesis done

theorem epReap_spec {want : Nat}
    (done : epReap want e env = some (fine, e', env')) :
    Grows e e' [] ∧
      (fine = true → e'.outstanding + want ≤ e.outstanding) := by
  obtain ⟨⟨ok, found, rest⟩, loop, same⟩ := Option.map_eq_some_iff.mp done
  simp only [Prod.mk.injEq] at same
  obtain ⟨rfl, rfl, -⟩ := same
  exact reapFrom_spec loop

/-- A post adds its request or, if it is refused, nothing. -/
theorem epPost_spec (done : epPost op piece e env = some (fine, e', env')) :
    (fine = true ∧ e'.posts = e.posts ++ [(op, piece)] ∧
        e'.outstanding = e.outstanding + 1) ∨
      (fine = false ∧ e' = e) := by
  unfold epPost at done
  split at done
  · cases done
  · simp only [Option.some.injEq, Prod.mk.injEq] at done
    obtain ⟨rfl, rfl, -⟩ := done
    exact Or.inr ⟨rfl, rfl⟩
  · simp only [Option.some.injEq, Prod.mk.injEq] at done
    obtain ⟨rfl, rfl, -⟩ := done
    exact Or.inl ⟨rfl, rfl, rfl⟩

/-- What posting one request does: it is added unless the post fails, and no
more requests than the window are outstanding. -/
structure Posted (window : Nat) (op : Op) (piece : Piece) (fine : Bool)
    (e e' : Endpoint) : Prop where
  added : (fine = true ∧ e'.posts = e.posts ++ [(op, piece)]) ∨
    (fine = false ∧
      (e'.posts = e.posts ∨ e'.posts = e.posts ++ [(op, piece)]))
  window : e.outstanding ≤ window → e'.outstanding ≤ window
  within : e.outstanding ≤ e.posts.length →
    e'.outstanding ≤ e'.posts.length

theorem Posted.of_post {window : Nat} (room : e.outstanding < window)
    (done : epPost op piece e env = some (fine, e', env')) :
    Posted window op piece fine e e' := by
  rcases epPost_spec done with ⟨rfl, posts, outstanding⟩ | ⟨rfl, rfl⟩
  · refine ⟨Or.inl ⟨rfl, posts⟩, fun _ => by omega, fun _ => ?_⟩
    rw [posts, List.length_append, List.length_singleton]
    omega
  · exact ⟨Or.inr ⟨rfl, Or.inl rfl⟩, id, id⟩

/-- Requests reaped before a post change nothing but their number. -/
theorem Posted.after {window : Nat} {middle : Endpoint}
    (grows : Grows e middle []) (posted : Posted window op piece fine middle e') :
    Posted window op piece fine e e' := by
  have posts := grows.posts
  have fewer := grows.outstanding
  rw [List.append_nil] at posts
  rw [List.length_nil, Nat.add_zero] at fewer
  refine ⟨?_, fun least => posted.window (by omega), fun least =>
    posted.within (by rw [posts]; omega)⟩
  rw [← posts]
  exact posted.added

/-- Requests reaped after it as well. -/
theorem Posted.before {window : Nat} {middle : Endpoint} {ok : Bool}
    (posted : Posted window op piece true e middle)
    (grows : Grows middle e' []) : Posted window op piece ok e e' := by
  have posts := grows.posts
  have fewer := grows.outstanding
  rw [List.append_nil] at posts
  rw [List.length_nil, Nat.add_zero] at fewer
  have added : e'.posts = e.posts ++ [(op, piece)] := by
    rw [posts]
    rcases posted.added with ⟨-, here⟩ | ⟨isZero, -⟩
    · exact here
    · cases isZero
  refine ⟨?_, fun least => ?_, fun least => ?_⟩
  · cases ok
    · exact Or.inr ⟨rfl, Or.inr added⟩
    · exact Or.inl ⟨rfl, added⟩
  · have most := posted.window least
    omega
  · have most := posted.within least
    rw [posts]
    omega

/-- Nothing was posted. -/
theorem Posted.nothing {window : Nat} (grows : Grows e e' []) :
    Posted window op piece false e e' := by
  have posts := grows.posts
  have fewer := grows.outstanding
  rw [List.append_nil] at posts
  rw [List.length_nil, Nat.add_zero] at fewer
  exact ⟨Or.inr ⟨rfl, Or.inl posts⟩, fun _ => by omega,
    fun _ => by rw [posts]; omega⟩

theorem rocePost_posted (platform : Platform)
    (done : rocePost platform op piece e env = some (fine, e', env')) :
    Posted (roceWindow platform) op piece fine e e' := by
  unfold rocePost at done
  split at done
  · split at done
    · cases done
    · next reaped =>
        simp only [Option.some.injEq, Prod.mk.injEq] at done
        obtain ⟨rfl, rfl, -⟩ := done
        exact Posted.nothing (epReap_spec reaped).1
    · next middle _ reaped =>
        obtain ⟨grows, enough⟩ := epReap_spec reaped
        have fewer := enough rfl
        have here := Posted.of_post (Nat.lt_succ_self middle.outstanding) done
        refine ⟨(here.after grows).added, fun least => ?_,
          (here.after grows).within⟩
        have most := here.window (Nat.le_succ _)
        omega
  · next room => exact Posted.of_post (Nat.not_le.mp room) done

theorem postAlone_posted {fuel window : Nat} (room : 0 < window)
    (done : postAlone op piece fuel e env = some (fine, e', env')) :
    Posted window op piece fine e e' := by
  induction fuel generalizing e env with
  | zero => cases done
  | succ fuel inductionHypothesis =>
      rw [postAlone] at done
      split at done
      · next empty =>
          split at done
          · cases done
          · next posted =>
              simp only [Option.some.injEq, Prod.mk.injEq] at done
              obtain ⟨rfl, rfl, -⟩ := done
              exact Posted.of_post (by omega) posted
          · next middle _ posted =>
              have here : Posted window op piece true e middle :=
                Posted.of_post (by omega) posted
              split at done
              · cases done
              · next reaped =>
                  simp only [Option.some.injEq, Prod.mk.injEq] at done
                  obtain ⟨rfl, rfl, -⟩ := done
                  exact here.before (epReap_spec reaped).1
              · next reaped =>
                  have both := (epReap_spec reaped).1.trans
                    (epReap_spec done).1
                  exact here.before both
      · split at done
        · cases done
        · next reaped =>
            simp only [Option.some.injEq, Prod.mk.injEq] at done
            obtain ⟨rfl, rfl, -⟩ := done
            exact Posted.nothing (epReap_spec reaped).1
        · next reaped =>
            exact (inductionHypothesis done).after (epReap_spec reaped).1

theorem roceWindow_pos (platform : Platform) : 0 < roceWindow platform := by
  cases platform <;> decide

theorem postOne_posted (platform : Platform)
    (done : postOne platform op piece e env = some (fine, e', env')) :
    Posted (roceWindow platform) op piece fine e e' := by
  unfold postOne at done
  split at done
  · exact postAlone_posted (roceWindow_pos platform) done
  · exact rocePost_posted platform done

end

/-! ## A whole range -/

section

variable {region : Region} {remote : Table} {op : Op} {off roff len : Nat}
  {e e' : Endpoint} {env env' : Env} {fine : Bool}

/-- What a range posts: some of its pieces in order, and all of them if it
goes well. -/
structure Ranged (window : Nat) (region : Region) (remote : Table) (op : Op)
    (spans : List Span) (fine : Bool) (e e' : Endpoint) : Prop where
  posts : ∃ count ≤ spans.length, e'.posts = e.posts ++
    (spans.take count).map (fun s => (op, s.piece region remote)) ∧
      (fine = true → count = spans.length)
  window : e.outstanding ≤ window → e'.outstanding ≤ window
  within : e.outstanding ≤ e.posts.length →
    e'.outstanding ≤ e'.posts.length

theorem pieceLimit_bounds (op : Op) :
    0 < pieceLimit op ∧ pieceLimit op < 2 ^ 32 := by
  cases op <;> decide

/-- Every range can be cut. -/
theorem exists_cuts {max : Nat} (positive : 0 < max) (word : max < 2 ^ 32)
    (inside : off + len ≤ region.length)
    (insideRemote : roff + len ≤ remote.length) :
    ∃ spans, Cuts region remote max off roff len spans := by
  induction len using Nat.strongRecOn generalizing off roff with
  | _ len inductionHypothesis =>
      rcases Nat.eq_zero_or_pos len with rfl | nonzero
      · exact ⟨[], Cuts.nil⟩
      · have bounds := takeOf_bounds region remote off roff nonzero positive
        have later : ∃ spans, Cuts region remote max
            (off + takeOf region (some remote) max off roff len)
            (roff + takeOf region (some remote) max off roff len)
            (len - takeOf region (some remote) max off roff len) spans :=
          inductionHypothesis _ (by omega) (by omega) (by omega)
        obtain ⟨spans, cuts⟩ := later
        exact ⟨_, cuts.cons nonzero positive word inside insideRemote⟩

/-- What `roce_range` takes is one piece for `cut`. -/
theorem cut_one {max : Nat} (positive : 0 < max) (nonzero : 0 < len) :
    cut region (some remote) max 1 off roff
      (takeOf region (some remote) max off roff len) =
        some [pieceAt region (some remote) off roff
          (takeOf region (some remote) max off roff len)] := by
  have least := (takeOf_bounds region remote off roff nonzero positive).1
  rw [cut, if_neg (by omega)]
  dsimp only
  rw [takeOf_takeOf, Nat.sub_self, cut, if_pos rfl]
  rfl

/-- One more piece that was posted. -/
theorem Ranged.cons {window : Nat} {middle : Endpoint} {first : Span}
    {spans : List Span}
    (posted : Posted window op (first.piece region remote) true e middle)
    (rest : Ranged window region remote op spans fine middle e') :
    Ranged window region remote op (first :: spans) fine e e' := by
  obtain ⟨count, most, posts, all⟩ := rest.posts
  have here : middle.posts = e.posts ++ [(op, first.piece region remote)] := by
    rcases posted.added with ⟨-, here⟩ | ⟨isZero, -⟩
    · exact here
    · cases isZero
  refine ⟨⟨count + 1, Nat.succ_le_succ most, ?_, fun ok => ?_⟩,
    fun least => rest.window (posted.window least),
    fun least => rest.within (posted.within least)⟩
  · rw [posts, here, List.take_succ_cons, List.map_cons, List.append_assoc]
    rfl
  · rw [all ok, List.length_cons]

/-- A range that ends with a failed post. -/
theorem Ranged.failed {window : Nat} {first : Span} {spans : List Span}
    (posted : Posted window op (first.piece region remote) false e e') :
    Ranged window region remote op (first :: spans) false e e' := by
  refine ⟨?_, posted.window, posted.within⟩
  rcases posted.added with ⟨isZero, -⟩ | ⟨-, same | one⟩
  · cases isZero
  · exact ⟨0, Nat.zero_le _, by simpa using same, by simp⟩
  · exact ⟨1, by simp, by simpa using one, by simp⟩

/-- `roce_range` posts the pieces that tile its range, in order. -/
theorem roceRange_ranged (platform : Platform) {fuel : Nat}
    (inside : off + len ≤ region.length)
    (insideRemote : roff + len ≤ remote.length)
    (done : roceRange platform region remote op fuel off roff len e env =
      some (fine, e', env')) :
    ∃ spans, Cuts region remote (pieceLimit op) off roff len spans ∧
      Ranged (roceWindow platform) region remote op spans fine e e' := by
  induction fuel generalizing off roff len e env with
  | zero =>
      rw [roceRange] at done
      split at done
      · next isZero =>
          subst isZero
          simp only [Option.some.injEq, Prod.mk.injEq] at done
          obtain ⟨rfl, rfl, -⟩ := done
          exact ⟨[], Cuts.nil, ⟨0, Nat.le_refl _, by simp, fun _ => rfl⟩, id,
            id⟩
      · cases done
  | succ fuel inductionHypothesis =>
      rw [roceRange] at done
      split at done
      · next isZero =>
          subst isZero
          simp only [Option.some.injEq, Prod.mk.injEq] at done
          obtain ⟨rfl, rfl, -⟩ := done
          exact ⟨[], Cuts.nil, ⟨0, Nat.le_refl _, by simp, fun _ => rfl⟩, id,
            id⟩
      · next nonzero =>
          obtain ⟨positive, word⟩ := pieceLimit_bounds op
          have bounds := takeOf_bounds region remote off roff
            (Nat.pos_of_ne_zero nonzero) positive
          dsimp only at done
          rw [cut_one positive (Nat.pos_of_ne_zero nonzero)] at done
          dsimp only at done
          split at done
          · cases done
          · next posted =>
              simp only [Option.some.injEq, Prod.mk.injEq] at done
              obtain ⟨rfl, rfl, -⟩ := done
              have later : ∃ spans, Cuts region remote (pieceLimit op)
                  (off +
                    takeOf region (some remote) (pieceLimit op) off roff len)
                  (roff +
                    takeOf region (some remote) (pieceLimit op) off roff len)
                  (len -
                    takeOf region (some remote) (pieceLimit op) off roff len)
                  spans := exists_cuts positive word (by omega) (by omega)
              obtain ⟨spans, cuts⟩ := later
              exact ⟨_, cuts.cons (Nat.pos_of_ne_zero nonzero) positive word
                inside insideRemote, Ranged.failed
                  (postOne_posted platform posted)⟩
          · next posted =>
              obtain ⟨spans, cuts, ranged⟩ := inductionHypothesis
                (by omega) (by omega) done
              exact ⟨_, cuts.cons (Nat.pos_of_ne_zero nonzero) positive word
                inside insideRemote,
                ranged.cons (postOne_posted platform posted)⟩

end

/-! ## The ring of words -/

/-- The words of the ring that were posted, in order. -/
def slotsOf (posts : List (Op × Piece)) : List Nat :=
  posts.filterMap fun post =>
    match post.2.source with
    | .slot index => some index
    | .window _ => none

theorem slotsOf_append (first second : List (Op × Piece)) :
    slotsOf (first ++ second) = slotsOf first ++ slotsOf second :=
  List.filterMap_append

/-- The pieces of a range come from the region. -/
theorem slotsOf_spans (region : Region) (remote : Table) (op : Op)
    (spans : List Span) :
    slotsOf (spans.map fun s => (op, s.piece region remote)) = [] := by
  rw [slotsOf, List.filterMap_map, List.filterMap_eq_nil_iff]
  exact fun s _ => rfl

/-- No more requests than the window are outstanding, and the words of the
signals were taken in turn. -/
structure Ring (platform : Platform) (p : Peer) : Prop where
  window : p.e.outstanding ≤ roceWindow platform
  within : p.e.outstanding ≤ p.e.posts.length
  words : p.down = false → ∃ count, p.signals = UInt64.ofNat count ∧
    slotsOf p.e.posts = (List.range count).map fun index => index % slotCount

section

variable {platform : Platform} {p : Peer} {win : Region} {remote : Table}
  {slotsKey : UInt32} {slots : Nat → UInt64}

theorem nextSlot_eq {count : Nat} (same : p.signals = UInt64.ofNat count) :
    p.nextSlot = count % slotCount := by
  rw [Peer.nextSlot, same, UInt64.toNat_ofNat']
  exact Nat.mod_mod_of_dvd count (by decide)

/-- The word of the next signal is not in flight. -/
theorem Ring.free (ring : Ring platform p) (up : p.down = false) :
    ∀ post ∈ p.e.inFlight, post.2.source ≠ .slot p.nextSlot := by
  intro post member same
  obtain ⟨count, signals, words⟩ := ring.words up
  have short : p.e.inFlight.length ≤ 16 := by
    have window : roceWindow platform ≤ 16 := by cases platform <;> decide
    have within := ring.within
    have most := ring.window
    rw [Endpoint.inFlight, List.length_drop]
    omega
  have split : slotsOf (p.e.posts.take
      (p.e.posts.length - p.e.outstanding)) ++ slotsOf p.e.inFlight =
        (List.range count).map fun index => index % slotCount := by
    rw [← slotsOf_append, Endpoint.inFlight, List.take_append_drop, words]
  have few : (slotsOf p.e.inFlight).length ≤ 16 :=
    Nat.le_trans (List.length_filterMap_le _ _) short
  have lengths := congrArg List.length split
  rw [List.length_append, List.length_map, List.length_range] at lengths
  have taken : p.nextSlot ∈ slotsOf p.e.inFlight :=
    List.mem_filterMap.mpr ⟨post, member, by rw [same]⟩
  obtain ⟨place, inside, there⟩ := List.mem_iff_getElem.mp taken
  have whole := congrArg (fun words => words[(slotsOf (p.e.posts.take
    (p.e.posts.length - p.e.outstanding))).length + place]?) split
  rw [List.getElem?_append_right (Nat.le_add_right _ _),
    Nat.add_sub_cancel_left, List.getElem?_eq_getElem inside, there,
    List.getElem?_map, List.getElem?_range (by omega)] at whole
  have equal := Option.some.inj whole
  rw [nextSlot_eq signals, slotCount] at equal
  dsimp only at equal
  omega

/-- A range keeps the ring. -/
theorem Ring.ranged {op : Op} {spans : List Span} {fine : Bool}
    {e' : Endpoint} (ring : Ring platform p)
    (ranged : Ranged (roceWindow platform) win remote op spans fine p.e e') :
    Ring platform (settle p fine e') := by
  refine ⟨ranged.window ring.window, ranged.within ring.within, fun up => ?_⟩
  obtain ⟨here, -⟩ : p.down = false ∧ fine = true := by
    simpa [settle] using up
  obtain ⟨count, signals, words⟩ := ring.words here
  obtain ⟨added, -, posts, -⟩ := ranged.posts
  refine ⟨count, signals, ?_⟩
  dsimp only [settle]
  rw [posts, slotsOf_append, slotsOf_spans, List.append_nil, words]

/-- Reaping keeps it. -/
theorem Ring.reaped {fine : Bool} {e' : Endpoint} (ring : Ring platform p)
    (grows : Grows p.e e' []) : Ring platform (settle p fine e') := by
  have posts := grows.posts
  have fewer := grows.outstanding
  have window := ring.window
  have within := ring.within
  rw [List.append_nil] at posts
  rw [List.length_nil, Nat.add_zero] at fewer
  refine ⟨Nat.le_trans fewer window, ?_, fun up => ?_⟩
  · dsimp only [settle]
    rw [posts]
    omega
  · obtain ⟨here, -⟩ : p.down = false ∧ fine = true := by
      simpa [settle] using up
    dsimp only [settle]
    rw [posts]
    exact ring.words here

/-- A signal takes the next word. -/
theorem Ring.signalled {roff : Nat} {value : UInt64} {env env' : Env}
    {fine : Bool} {p' : Peer} (ring : Ring platform p) (up : p.down = false)
    (done : roceSignal platform p roff value env = some (fine, p', env')) :
    Ring platform (settle p' fine p'.e) ∧
      ∀ index ≠ p.nextSlot, p'.slots index = p.slots index := by
  obtain ⟨⟨ok, e', rest⟩, posting, same⟩ := Option.map_eq_some_iff.mp done
  simp only [Prod.mk.injEq] at same
  obtain ⟨rfl, rfl, -⟩ := same
  have posted := rocePost_posted platform posting
  refine ⟨⟨posted.window ring.window, posted.within ring.within,
    fun fineUp => ?_⟩, fun index differs => if_neg differs⟩
  obtain ⟨-, rfl⟩ : p.down = false ∧ ok = true := by
    simpa [settle] using fineUp
  obtain ⟨count, signals, words⟩ := ring.words up
  rcases posted.added with ⟨-, posts⟩ | ⟨isZero, -⟩
  · refine ⟨count + 1, ?_, ?_⟩
    · dsimp only [settle]
      rw [signals, UInt64.ofNat_add]
      rfl
    · dsimp only [settle]
      rw [posts, slotsOf_append, words, List.range_succ, List.map_append]
      change _ ++ [p.nextSlot] = _ ++ [count % slotCount]
      rw [nextSlot_eq signals]
  · cases isZero

theorem inRange_iff {off len limit : Nat} :
    inRange off len limit = true ↔ off + len ≤ limit := by
  rw [inRange, Bool.and_eq_true, decide_eq_true_eq, decide_eq_true_eq]
  omega

/-- The ring is kept by every call, and a call changes no word but the next
one. -/
theorem Ring.call {c : Call} {env : Env} {next : Peer}
    (ring : Ring platform p) (done : call platform p c env = some next) :
    Ring platform next ∧
      ((∀ index, next.slots index = p.slots index) ∨
        p.down = false ∧ ∀ index ≠ p.nextSlot,
          next.slots index = p.slots index) := by
  have ranges : ∀ (op : Op) (off roff len : Nat) (fine : Bool)
      (e' : Endpoint) (env' : Env), off + len ≤ p.win.length →
      roff + len ≤ p.remote.length →
      roceRange platform p.win p.remote op len off roff len p.e env =
        some (fine, e', env') → Ring platform (settle p fine e') := by
    intro op off roff len fine e' env' inside insideRemote loop
    obtain ⟨spans, -, ranged⟩ :=
      roceRange_ranged platform inside insideRemote loop
    exact ring.ranged ranged
  cases c with
  | write off roff len =>
      rw [Roce.call] at done
      split at done
      · obtain rfl := Option.some.inj done
        exact ⟨ring, Or.inl fun _ => rfl⟩
      · next bounds =>
          simp only [Bool.or_eq_true, Bool.not_eq_true', not_or,
            Bool.not_eq_false, inRange_iff] at bounds
          split at done
          · obtain rfl := Option.some.inj done
            exact ⟨ring, Or.inl fun _ => rfl⟩
          · obtain ⟨⟨fine, e', env'⟩, loop, rfl⟩ :=
              Option.map_eq_some_iff.mp done
            exact ⟨ranges .write off roff len fine e' env' bounds.1 bounds.2
              loop, Or.inl fun _ => rfl⟩
  | read off roff len =>
      rw [Roce.call] at done
      split at done
      · obtain rfl := Option.some.inj done
        exact ⟨ring, Or.inl fun _ => rfl⟩
      · next bounds =>
          simp only [Bool.or_eq_true, Bool.not_eq_true', not_or,
            Bool.not_eq_false, inRange_iff] at bounds
          split at done
          · obtain rfl := Option.some.inj done
            exact ⟨ring, Or.inl fun _ => rfl⟩
          · obtain ⟨⟨fine, e', env'⟩, loop, rfl⟩ :=
              Option.map_eq_some_iff.mp done
            exact ⟨ranges .read off roff len fine e' env' bounds.1 bounds.2
              loop, Or.inl fun _ => rfl⟩
  | signal roff value =>
      rw [Roce.call] at done
      split at done
      · obtain rfl := Option.some.inj done
        exact ⟨ring, Or.inl fun _ => rfl⟩
      · split at done
        · obtain rfl := Option.some.inj done
          exact ⟨ring, Or.inl fun _ => rfl⟩
        · next up =>
            obtain ⟨⟨fine, p', env'⟩, signalled, rfl⟩ :=
              Option.map_eq_some_iff.mp done
            have here : p.down = false := by simpa using up
            obtain ⟨kept, others⟩ := ring.signalled here signalled
            exact ⟨kept, Or.inr ⟨here, others⟩⟩
  | flush =>
      rw [Roce.call] at done
      split at done
      · obtain rfl := Option.some.inj done
        exact ⟨ring, Or.inl fun _ => rfl⟩
      · obtain ⟨⟨fine, e', env'⟩, reaped, rfl⟩ :=
          Option.map_eq_some_iff.mp done
        exact ⟨ring.reaped (epReap_spec reaped).1, Or.inl fun _ => rfl⟩
  | progress =>
      rw [Roce.call] at done
      split at done
      · obtain rfl := Option.some.inj done
        exact ⟨ring, Or.inl fun _ => rfl⟩
      · obtain ⟨⟨fine, e', env'⟩, reaped, rfl⟩ :=
          Option.map_eq_some_iff.mp done
        exact ⟨ring.reaped (epReap_spec reaped).1, Or.inl fun _ => rfl⟩
  | lost =>
      obtain rfl := Option.some.inj done
      exact ⟨⟨ring.window, ring.within, fun up => by cases up⟩,
        Or.inl fun _ => rfl⟩

/-- Every run of calls keeps the ring. -/
theorem ring_of_reach
    (reached : (machine platform win remote slotsKey slots).Reach p) :
    Ring platform p := by
  refine reached.invariant (Ring platform)
    ⟨Nat.zero_le _, Nat.le_refl _, fun _ => ⟨0, rfl, rfl⟩⟩ ?_
  intro before next action ring taken
  exact (ring.call taken).1

/-- Pieces tile their range, whether it is cut at once or posted piece by
piece; and no word of the ring changes while its write may be in flight. -/
theorem requests_tile (platform : Platform) :
    (∀ (region : Region) (remote : Table) (max cap off roff len : Nat)
      (pieces : List Piece), max < 2 ^ 32 → off + len ≤ region.length →
      roff + len ≤ remote.length →
      cut region (some remote) max cap off roff len = some pieces →
        ∃ spans, Cuts region remote max off roff len spans ∧
          pieces = spans.map (Span.piece region remote)) ∧
    (∀ (region : Region) (remote : Table) (op : Op) (off roff len : Nat)
      (e e' : Endpoint) (env env' : Env) (fine : Bool),
      off + len ≤ region.length → roff + len ≤ remote.length →
      roceRange platform region remote op len off roff len e env =
        some (fine, e', env') →
        ∃ spans, Cuts region remote (pieceLimit op) off roff len spans ∧
          ∃ count ≤ spans.length, e'.posts = e.posts ++
            (spans.take count).map (fun s => (op, s.piece region remote)) ∧
            (fine = true → count = spans.length)) ∧
    (∀ (win : Region) (remote : Table) (slotsKey : UInt32)
      (slots : Nat → UInt64) (p next : Peer) (c : Call) (env : Env),
      (machine platform win remote slotsKey slots).Reach p →
      call platform p c env = some next →
        ∀ post ∈ p.e.inFlight, ∀ index, post.2.source = .slot index →
          next.slots index = p.slots index) := by
  refine ⟨?_, ?_, ?_⟩
  · intro region remote max cap off roff len pieces word inside insideRemote
      done
    exact cut_ok word inside insideRemote done
  · intro region remote op off roff len e e' env env' fine inside insideRemote
      done
    obtain ⟨spans, cuts, ranged⟩ :=
      roceRange_ranged platform inside insideRemote done
    exact ⟨spans, cuts, ranged.posts⟩
  · intro win remote slotsKey slots p next c env reached done post flying index
      source
    have ring := ring_of_reach reached
    rcases (ring.call done).2 with same | ⟨up, others⟩
    · exact same index
    · refine others index ?_
      rintro rfl
      exact ring.free up post flying source

end

/-- Four bytes over a border of registrations on the other side. -/
theorem requests_tile_border :
    ∃ spans, Cuts ⟨8, 8, [7], by decide, by decide⟩
        ⟨0, 8, 4, [1, 2], by decide, by decide⟩ 4 1 2 4 spans ∧
      [⟨.window 1, 7, 2, 1, 2⟩, ⟨.window 3, 7, 4, 2, 2⟩] =
        spans.map (Span.piece ⟨8, 8, [7], by decide, by decide⟩
          ⟨0, 8, 4, [1, 2], by decide, by decide⟩) :=
  (requests_tile .apple).1 ⟨8, 8, [7], by decide, by decide⟩
    ⟨0, 8, 4, [1, 2], by decide, by decide⟩ 4 2 1 2 4 _ (by decide) (by decide)
    (by decide) rfl

/-- A piece of 2 ^ 32 bytes has no room in the 32 bits of its length. -/
theorem cut_wide :
    ¬ ∀ (region : Region) (remote : Table) (max cap off roff len : Nat)
      (pieces : List Piece), off + len ≤ region.length →
      roff + len ≤ remote.length →
      cut region (some remote) max cap off roff len = some pieces →
        ∀ piece ∈ pieces, 0 < piece.len := by
  intro all
  have isZero := all ⟨2 ^ 32, 2 ^ 32, [7], by decide, by decide⟩
    ⟨0, 2 ^ 32, 2 ^ 32, [1], by decide, by decide⟩ (2 ^ 32) 1 0 0 (2 ^ 32)
    [⟨.window 0, 7, 0, 1, 0⟩] (by decide) (by decide) rfl
    ⟨.window 0, 7, 0, 1, 0⟩ (List.mem_singleton_self _)
  revert isZero
  decide

end Roce
end Fabric
end Mcdma
