import Mcdma.Lib.Dict
import Mathlib.Data.List.Induction

/-!
# Which port is cabled to which

`suggestMapping` of `cli/lib/topology.js` serves the ports of the Macs one at a
time.  A port takes a Spark port that no port before it has taken: the one its
wiring was verified with, or the saved choice, or the one that a static
neighbour names; the ports that are left take any one with a link.
-/

namespace Mcdma
namespace Cli
namespace Topology

/-- A name is the list of its characters. -/
abbrev Name := List Char

/-- A name that is there and not empty. -/
def truthy (name : Option Name) : Bool :=
  name.any fun text => text ≠ []

/-- A Spark port that could face a Mac. -/
structure Candidate where
  spark : Name
  iface : Name
  mac : Option Name
  link : Bool
deriving DecidableEq

/-- A Spark and its interface, in one name. -/
def Candidate.key (c : Candidate) : Name := c.spark ++ '/' :: c.iface

/-- The names that a choice or a mapping holds. -/
structure Entry where
  spark : Name
  iface : Name
deriving DecidableEq

/-- The names of a candidate. -/
def Candidate.entry (c : Candidate) : Entry := ⟨c.spark, c.iface⟩

/-- A port of a Mac; of a neighbour only `lladdr` is read. -/
structure Port where
  key : Name
  iface : Option Name
  neighbours : List (Option Name)
  portActive : Bool

/-- Why a port is mapped, or not. -/
inductive Reason where
  | verified | unassigned | saved | neighbour | guess
deriving DecidableEq

/-- What has been settled. -/
structure Suggestion where
  mapping : Dict Name Entry
  reasons : Dict Name Reason
  used : List Name

/-- Nothing settled. -/
def Suggestion.empty : Suggestion := ⟨Dict.empty, Dict.empty, []⟩

/-- `take`. -/
def Suggestion.take (s : Suggestion) (key : Name) (c : Candidate)
    (reason : Reason) : Suggestion where
  mapping := s.mapping.put key c.entry
  reasons := s.reasons.put key reason
  used := c.key :: s.used

section

variable (candidates : List Candidate) (saved : Dict Name (Option Entry))
  (verified : Dict Name Entry)

/-- The candidates by hardware address; the last one with an address counts. -/
def byMac : Dict Name Candidate :=
  candidates.foldl (fun table c =>
    match c.mac with
    | some mac => if mac = [] then table else table.put mac c
    | none => table) Dict.empty

/-- `find`: the candidate that an entry names, if it is not taken. -/
def find (used : List Name) : Option Entry → Option Candidate
  | none => none
  | some m =>
      candidates.find? fun c =>
        c.spark = m.spark ∧ c.iface = m.iface ∧ c.key ∉ used

/-- The first neighbour's candidate that is not taken. -/
def facing (used : List Name) (p : Port) : Option Candidate :=
  p.neighbours.findSome? fun lladdr =>
    (lladdr.bind (byMac candidates).get).filter fun c => c.key ∉ used

/-- A port's turn in the first loop. -/
def turn (s : Suggestion) (p : Port) : Suggestion :=
  if truthy p.iface = false then s
  else
    match find candidates s.used (verified.get p.key) with
    | some v => s.take p.key v .verified
    | none =>
        if saved.get p.key = some none then
          { s with reasons := s.reasons.put p.key .unassigned }
        else
          match find candidates s.used (saved.get p.key).join with
          | some c => s.take p.key c .saved
          | none =>
              match facing candidates s.used p with
              | some c => s.take p.key c .neighbour
              | none => s

/-- A port's turn in the second loop. -/
def guess (s : Suggestion) (p : Port) : Suggestion :=
  if truthy p.iface = false ∨ (s.mapping.get p.key).isSome = true ∨
      s.reasons.get p.key = some .unassigned ∨ p.portActive = false then s
  else
    match candidates.find? fun c => c.key ∉ s.used ∧ c.link = true with
    | some free => s.take p.key free .guess
    | none => s

/-- The first loop. -/
def turns (ports : List Port) : Suggestion :=
  ports.foldl (turn candidates saved verified) Suggestion.empty

/-- `suggestMapping`. -/
def suggestMapping (ports : List Port) : Suggestion :=
  ports.foldl (guess candidates) (turns candidates saved verified ports)

/-- What a port takes at its turn. -/
def taken (used : List Name) (p : Port) : Option (Candidate × Reason) :=
  if truthy p.iface = false then none
  else
    match find candidates used (verified.get p.key) with
    | some v => some (v, .verified)
    | none =>
        if saved.get p.key = some none then none
        else
          match find candidates used (saved.get p.key).join with
          | some c => some (c, .saved)
          | none =>
              (facing candidates used p).map fun c => (c, .neighbour)

/-- The candidates that an entry names. -/
def named : Option Entry → List Candidate
  | none => []
  | some m =>
      candidates.filter fun c => c.spark = m.spark ∧ c.iface = m.iface

/-- The candidates that a port asks for at its turn, those it prefers first:
its verified wiring, its saved choice, its neighbours. -/
def choices (p : Port) : List Candidate :=
  if truthy p.iface = false then []
  else
    named candidates (verified.get p.key) ++
      if saved.get p.key = some none then []
      else
        named candidates (saved.get p.key).join ++
          p.neighbours.filterMap fun lladdr =>
            lladdr.bind (byMac candidates).get

/-- One of the ports asks for a candidate with this key, and whatever it
prefers to it is contested among the ports before. -/
inductive Contested : List Port → Name → Prop
  | asks {front back : List Port} {q : Port} {early late : List Candidate}
      {d : Candidate}
      (asked : choices candidates saved verified q = early ++ d :: late)
      (others : ∀ o ∈ early, Contested front o.key) :
      Contested (front ++ q :: back) d.key

end

/-! ## One turn -/

/-- A turn takes a candidate that is free for the port, or it maps nothing. -/
inductive Turned (key : Name) (s s' : Suggestion) : Prop where
  | takes (c : Candidate) (reason : Reason) (free : c.key ∉ s.used)
      (eq : s' = s.take key c reason)
  | leaves (mapping : s'.mapping = s.mapping) (used : s'.used = s.used)
      (reasons : ∀ other ≠ key, s'.reasons.get other = s.reasons.get other)

section

variable {candidates : List Candidate} {saved : Dict Name (Option Entry)}
  {verified : Dict Name Entry} {s s' : Suggestion} {p : Port}
  {used : List Name} {key other : Name}

theorem find_some {m : Entry} {c : Candidate}
    (found : find candidates used (some m) = some c) :
    c.entry = m ∧ c.key ∉ used := by
  have fits := List.find?_some found
  simp only [decide_eq_true_eq] at fits
  obtain ⟨spark, iface, free⟩ := fits
  exact ⟨by rw [Candidate.entry, spark, iface], free⟩

theorem find_none {c : Candidate} (present : c ∈ candidates) :
    find candidates used (some c.entry) = none ↔ c.key ∈ used := by
  rw [find, List.find?_eq_none]
  simp only [decide_eq_true_eq]
  constructor
  · intro missing
    by_contra free
    exact missing c present ⟨rfl, rfl, free⟩
  · rintro there d - ⟨spark, iface, free⟩
    refine free ?_
    rw [Candidate.key, spark, iface]
    exact there

theorem taken_free {c : Candidate} {reason : Reason}
    (takes : taken candidates saved verified used p = some (c, reason)) :
    c.key ∉ used := by
  have finds : ∀ m, find candidates used m = some c → c.key ∉ used := by
    rintro (_ | m) found
    · simp [find] at found
    · exact (find_some found).2
  unfold taken at takes
  split at takes
  · simp at takes
  · split at takes
    · next found =>
        obtain ⟨rfl, -⟩ := Prod.mk.inj (Option.some.inj takes)
        exact finds _ found
    · split at takes
      · simp at takes
      · split at takes
        · next found =>
            obtain ⟨rfl, -⟩ := Prod.mk.inj (Option.some.inj takes)
            exact finds _ found
        · obtain ⟨d, found, same⟩ := Option.map_eq_some_iff.mp takes
          obtain ⟨rfl, -⟩ := Prod.mk.inj same
          obtain ⟨lladdr, -, here⟩ := List.exists_of_findSome?_eq_some found
          simpa using (Option.filter_eq_some_iff.mp here).2

theorem find_named (m : Option Entry) :
    find candidates used m =
      (named candidates m).find? fun c => c.key ∉ used := by
  cases m with
  | none => rfl
  | some m =>
      rw [find, named, List.find?_filter]
      congr 1
      funext c
      simp only [decide_eq_true_eq, and_assoc]

variable (candidates used) in
theorem facing_filterMap (p : Port) :
    facing candidates used p =
      (p.neighbours.filterMap fun lladdr =>
        lladdr.bind (byMac candidates).get).find? fun c => c.key ∉ used := by
  rw [facing, ← List.head?_filter, List.filter_filterMap, List.head?_filterMap]

variable (candidates saved verified used) in
/-- A port takes the first of its choices that is free. -/
theorem taken_choices (p : Port) :
    (taken candidates saved verified used p).map Prod.fst =
      (choices candidates saved verified p).find? fun c => c.key ∉ used := by
  unfold taken choices
  split
  · rfl
  · rw [List.find?_append, ← find_named]
    split
    · next found => rw [found]; rfl
    · next missing =>
        rw [missing, Option.none_or]
        split
        · rfl
        · rw [List.find?_append, ← find_named, ← facing_filterMap]
          split
          · next found => rw [found]; rfl
          · next missing =>
              rw [missing, Option.none_or, Option.map_map]
              exact Option.map_id_apply

/-- A verified wiring is taken if it is free. -/
theorem taken_verified {d : Candidate} :
    taken candidates saved verified used p = some (d, .verified) ↔
      truthy p.iface = true ∧
        find candidates used (verified.get p.key) = some d := by
  unfold taken
  split
  · next unnamed => simp [unnamed]
  · next here =>
      have named : truthy p.iface = true := by simpa using here
      split
      · simp [*]
      · split
        · simp [*]
        · split <;> simp [*]

variable (candidates saved verified) in
/-- What a turn does, by what it takes. -/
theorem turn_taken (s : Suggestion) (p : Port) :
    (∀ c reason, taken candidates saved verified s.used p = some (c, reason) →
        turn candidates saved verified s p = s.take p.key c reason) ∧
      (taken candidates saved verified s.used p = none →
        turn candidates saved verified s p = s ∨
          turn candidates saved verified s p =
            { s with reasons := s.reasons.put p.key .unassigned }) := by
  unfold taken turn
  split
  · simp
  · split
    · simp
    · split
      · simp
      · split
        · simp
        · split <;> simp_all

variable (candidates saved verified) in
theorem turn_turned (s : Suggestion) (p : Port) :
    Turned p.key s (turn candidates saved verified s p) := by
  obtain ⟨takes, leaves⟩ := turn_taken candidates saved verified s p
  cases what : taken candidates saved verified s.used p with
  | some both => exact .takes both.1 both.2 (taken_free what) (takes _ _ what)
  | none =>
      rcases leaves what with same | unassigned
      · rw [same]
        exact .leaves rfl rfl fun _ _ => rfl
      · rw [unassigned]
        exact .leaves rfl rfl fun _ differs =>
          Dict.get_put_other _ _ differs

variable (candidates) in
theorem guess_turned (s : Suggestion) (p : Port) :
    Turned p.key s (guess candidates s p) := by
  unfold guess
  split
  · exact .leaves rfl rfl fun _ _ => rfl
  · split
    · next free found =>
        have fits := List.find?_some found
        simp only [decide_eq_true_eq] at fits
        exact .takes free .guess fits.1 rfl
    · exact .leaves rfl rfl fun _ _ => rfl

theorem Turned.mapping_other (turned : Turned key s s')
    (differs : other ≠ key) : s'.mapping.get other = s.mapping.get other := by
  rcases turned with ⟨c, reason, -, rfl⟩ | ⟨mapping, -, -⟩
  · exact Dict.get_put_other _ _ differs
  · rw [mapping]

theorem Turned.reasons_other (turned : Turned key s s')
    (differs : other ≠ key) : s'.reasons.get other = s.reasons.get other := by
  rcases turned with ⟨c, reason, -, rfl⟩ | ⟨-, -, reasons⟩
  · exact Dict.get_put_other _ _ differs
  · exact reasons other differs

/-- No candidate is mapped to two ports, and those mapped are taken. -/
structure Suggestion.Sound (s : Suggestion) : Prop where
  used : ∀ key c, s.mapping.get key = some (Candidate.entry c) →
    c.key ∈ s.used
  inj : ∀ key other e, s.mapping.get key = some e →
    s.mapping.get other = some e → key = other

theorem Suggestion.Sound.empty : Suggestion.empty.Sound where
  used key c mapped := by simp [Suggestion.empty] at mapped
  inj key other e mapped := by simp [Suggestion.empty] at mapped

theorem Turned.sound (turned : Turned key s s') (sound : s.Sound) :
    s'.Sound := by
  rcases turned with ⟨c, reason, free, rfl⟩ | ⟨mapping, used, -⟩
  · have fresh : ∀ other ≠ key,
        (s.take key c reason).mapping.get other ≠ some c.entry := by
      intro other differs mapped
      rw [Suggestion.take, Dict.get_put_other _ _ differs] at mapped
      exact free (sound.used other c mapped)
    have here : (s.take key c reason).mapping.get key = some c.entry :=
      Dict.get_put_same _ _ _
    refine ⟨fun other d mapped => ?_, fun k l e first second => ?_⟩
    · by_cases same : other = key
      · rw [same, here] at mapped
        have keys : d.key = c.key := by
          obtain ⟨spark, iface⟩ := Entry.mk.inj (Option.some.inj mapped)
          rw [Candidate.key, Candidate.key, spark, iface]
        rw [keys]
        exact List.mem_cons_self
      · rw [Suggestion.take, Dict.get_put_other _ _ same] at mapped
        exact List.mem_cons_of_mem _ (sound.used other d mapped)
    · by_cases atK : k = key
      · by_cases atL : l = key
        · rw [atK, atL]
        · rw [atK, here] at first
          rw [← first] at second
          exact absurd second (fresh l atL)
      · by_cases atL : l = key
        · rw [atL, here] at second
          rw [← second] at first
          exact absurd first (fresh k atK)
        · rw [Suggestion.take, Dict.get_put_other _ _ atK] at first
          rw [Suggestion.take, Dict.get_put_other _ _ atL] at second
          exact sound.inj k l e first second
  · refine ⟨fun other d mapped => ?_, fun k l e first second => ?_⟩
    · rw [mapping] at mapped
      rw [used]
      exact sound.used other d mapped
    · rw [mapping] at first second
      exact sound.inj k l e first second

/-! ## A loop over the ports -/

section

variable {serve : Suggestion → Port → Suggestion}
  (turned : ∀ s p, Turned p.key s (serve s p))

include turned

theorem foldl_sound (sound : s.Sound) (ports : List Port) :
    (ports.foldl serve s).Sound :=
  List.foldlRecOn ports serve sound fun s sound p _ => (turned s p).sound sound

/-- Ports with other keys leave a key as it is. -/
theorem foldl_other {ports : List Port} (s : Suggestion)
    (differs : ∀ p ∈ ports, p.key ≠ key) :
    (ports.foldl serve s).mapping.get key = s.mapping.get key ∧
      (ports.foldl serve s).reasons.get key = s.reasons.get key := by
  refine List.foldlRecOn ports serve (motive := fun s' =>
    s'.mapping.get key = s.mapping.get key ∧
      s'.reasons.get key = s.reasons.get key) ⟨rfl, rfl⟩ ?_
  rintro s' ⟨mapping, reasons⟩ p member
  have other := (differs p member).symm
  exact ⟨((turned s' p).mapping_other other).trans mapping,
    ((turned s' p).reasons_other other).trans reasons⟩

end

variable (candidates) in
/-- A port that is mapped is not guessed, and guesses are told apart. -/
theorem guess_settled (s : Suggestion) (p : Port)
    (mapped : (s.mapping.get key).isSome = true) :
    (guess candidates s p).mapping.get key = s.mapping.get key ∧
      (guess candidates s p).reasons.get key = s.reasons.get key := by
  by_cases same : key = p.key
  · rw [same] at mapped
    rw [guess, if_pos (Or.inr (Or.inl mapped))]
    exact ⟨rfl, rfl⟩
  · have turned := guess_turned candidates s p
    exact ⟨turned.mapping_other same, turned.reasons_other same⟩

variable (candidates) in
theorem guesses_settled (ports : List Port)
    (mapped : (s.mapping.get key).isSome = true) :
    (ports.foldl (guess candidates) s).mapping.get key = s.mapping.get key ∧
      (ports.foldl (guess candidates) s).reasons.get key =
        s.reasons.get key := by
  refine List.foldlRecOn ports (guess candidates) (motive := fun s' =>
    s'.mapping.get key = s.mapping.get key ∧
      s'.reasons.get key = s.reasons.get key) ⟨rfl, rfl⟩ ?_
  rintro s' ⟨mapping, reasons⟩ p -
  obtain ⟨mapping', reasons'⟩ := guess_settled candidates s' p
    (by rw [mapping]; exact mapped)
  exact ⟨mapping'.trans mapping, reasons'.trans reasons⟩

/-- No guess counts as verified. -/
theorem guesses_verified (ports : List Port)
    (reason : (ports.foldl (guess candidates) s).reasons.get key =
      some .verified) : s.reasons.get key = some .verified := by
  revert reason
  refine List.foldlRecOn ports (guess candidates) (motive := fun s' =>
    s'.reasons.get key = some .verified → s.reasons.get key = some .verified)
    id fun s' before p _ reason => before ?_
  unfold guess at reason
  split at reason
  · exact reason
  · split at reason
    · by_cases same : key = p.key
      · rw [same, Suggestion.take, Dict.get_put_same] at reason
        cases reason
      · rwa [Suggestion.take, Dict.get_put_other _ _ same] at reason
    · exact reason

/-- What is in use was taken by a port at its turn. -/
theorem turns_used (ports : List Port) (key : Name) :
    key ∈ (turns candidates saved verified ports).used ↔
      ∃ front q back d reason, ports = front ++ q :: back ∧
        taken candidates saved verified
          (turns candidates saved verified front).used q = some (d, reason) ∧
        d.key = key := by
  induction ports using List.reverseRecOn with
  | nil => simp [turns, Suggestion.empty]
  | append_singleton ports p inductionHypothesis =>
      have last : turns candidates saved verified (ports ++ [p]) =
          turn candidates saved verified
            (turns candidates saved verified ports) p := by
        rw [turns, List.foldl_append]
        rfl
      obtain ⟨takes, leaves⟩ := turn_taken candidates saved verified
        (turns candidates saved verified ports) p
      constructor
      · intro inUse
        have origins : key ∈ (turns candidates saved verified ports).used ∨
            ∃ d reason, taken candidates saved verified
              (turns candidates saved verified ports).used p =
                some (d, reason) ∧ d.key = key := by
          cases what : taken candidates saved verified
              (turns candidates saved verified ports).used p with
          | some both =>
              rw [last, takes _ _ what, Suggestion.take] at inUse
              rcases List.mem_cons.mp inUse with here | there
              · exact Or.inr ⟨both.1, both.2, rfl, here.symm⟩
              · exact Or.inl there
          | none =>
              rcases leaves what with same | unassigned
              · rw [last, same] at inUse
                exact Or.inl inUse
              · rw [last, unassigned] at inUse
                exact Or.inl inUse
        rcases origins with before | ⟨d, reason, what, same⟩
        · obtain ⟨front, q, back, d, reason, rfl, what, same⟩ :=
            inductionHypothesis.mp before
          exact ⟨front, q, back ++ [p], d, reason, by simp, what, same⟩
        · exact ⟨ports, p, [], d, reason, rfl, what, same⟩
      · rintro ⟨front, q, back, d, reason, split, what, same⟩
        rcases List.eq_nil_or_concat' back with rfl | ⟨rest, r, rfl⟩
        · obtain ⟨rfl, one⟩ := List.append_inj' split rfl
          obtain rfl : p = q := by simpa using one
          rw [last, takes _ _ what, Suggestion.take, same]
          exact List.mem_cons_self
        · have shape : ports ++ [p] = (front ++ q :: rest) ++ [r] := by
            rw [split]
            simp
          obtain ⟨whole, -⟩ := List.append_inj' shape rfl
          have before := inductionHypothesis.mpr
            ⟨front, q, rest, d, reason, whole, what, same⟩
          rcases turn_turned candidates saved verified
            (turns candidates saved verified ports) p with ⟨c, _, -, eq⟩ | ⟨-, used, -⟩
          · rw [last, eq]
            exact List.mem_cons_of_mem _ before
          · rw [last, used]
            exact before

/-- What is in use stays so. -/
theorem turns_used_append {front : List Port} (back : List Port)
    (inUse : key ∈ (turns candidates saved verified front).used) :
    key ∈ (turns candidates saved verified (front ++ back)).used := by
  obtain ⟨first, q, rest, d, reason, rfl, what, same⟩ :=
    (turns_used front key).mp inUse
  exact (turns_used _ key).mpr
    ⟨first, q, rest ++ back, d, reason, by simp, what, same⟩

/-- What the ports contest is in use after their turns. -/
theorem Contested.inUse {ports : List Port}
    (contested : Contested candidates saved verified ports key) :
    key ∈ (turns candidates saved verified ports).used := by
  induction contested with
  | @asks front back q early late d asked _ inductionHypothesis =>
      by_cases inUse : d.key ∈ (turns candidates saved verified front).used
      · exact turns_used_append (q :: back) inUse
      · have first : (taken candidates saved verified
            (turns candidates saved verified front).used q).map Prod.fst =
              some d := by
          rw [taken_choices, asked, List.find?_append]
          have passed : early.find? (fun c =>
              c.key ∉ (turns candidates saved verified front).used) =
                none := by
            rw [List.find?_eq_none]
            intro o member
            simpa using inductionHypothesis o member
          rw [passed, Option.none_or, List.find?_cons_of_pos (by simpa)]
        obtain ⟨⟨_, reason⟩, what, rfl⟩ := Option.map_eq_some_iff.mp first
        exact (turns_used _ _).mpr ⟨front, q, back, _, reason, rfl, what, rfl⟩

/-- What is in use is contested by the ports: each took the first of its
choices that was free. -/
theorem contested_of_used {ports : List Port}
    (inUse : key ∈ (turns candidates saved verified ports).used) :
    Contested candidates saved verified ports key := by
  induction length : ports.length using Nat.strongRecOn
    generalizing ports key with
  | _ length' inductionHypothesis =>
      obtain ⟨front, q, back, d, reason, rfl, what, rfl⟩ :=
        (turns_used ports key).mp inUse
      have first := taken_choices candidates saved verified
        (turns candidates saved verified front).used q
      rw [what, Option.map_some, eq_comm, List.find?_eq_some_iff_append]
        at first
      obtain ⟨-, early, late, asked, others⟩ := first
      refine .asks asked fun o member => ?_
      refine inductionHypothesis front.length ?_ ?_ rfl
      · rw [← length, List.length_append, List.length_cons]
        omega
      · simpa using others o member

end

/-! ## Verified wirings -/

section

variable (candidates : List Candidate) (saved : Dict Name (Option Entry))
  (verified : Dict Name Entry) (ports : List Port)

/-- A port's verified wiring names a candidate, and that of no other port
does. -/
structure Sole (before : List Port) (p : Port) (after : List Port)
    (c : Candidate) : Prop where
  ports : ports = before ++ p :: after
  present : c ∈ candidates
  names : verified.get p.key = some c.entry
  alone : ∀ q ∈ before ++ after, verified.get q.key ≠ some c.entry

/-- Every port gets the candidate that its verified wiring alone names. -/
def VerifiedWins : Prop :=
  ∀ before p after c, Sole candidates verified ports before p after c →
    (suggestMapping candidates saved verified ports).mapping.get p.key =
        some c.entry ∧
      (suggestMapping candidates saved verified ports).reasons.get p.key =
        some .verified

/-- Every port with such a wiring has an interface, and the ports before it do
not contest the key of its candidate. -/
def Uncontested : Prop :=
  ∀ before p after c, Sole candidates verified ports before p after c →
    truthy p.iface = true ∧
      ¬ Contested candidates saved verified before c.key

/-- Every port with such a wiring has an interface, and no port before it asks
for its candidate or one with the same key. -/
def Unnamed : Prop :=
  ∀ before p after c, Sole candidates verified ports before p after c →
    truthy p.iface = true ∧
      ∀ q ∈ before, ∀ d ∈ choices candidates saved verified q, d.key ≠ c.key

variable {candidates saved verified ports}

theorem Sole.other {before after : List Port} {p q : Port} {c : Candidate}
    (sole : Sole candidates verified ports before p after c)
    (member : q ∈ before ++ after) : q.key ≠ p.key := by
  intro same
  refine sole.alone q member ?_
  rw [same]
  exact sole.names

/-- The port's own turn decides. -/
theorem Sole.wins_iff {before after : List Port} {p : Port} {c : Candidate}
    (sole : Sole candidates verified ports before p after c) :
    ((suggestMapping candidates saved verified ports).mapping.get p.key =
        some c.entry ∧
      (suggestMapping candidates saved verified ports).reasons.get p.key =
        some .verified) ↔
      truthy p.iface = true ∧
        c.key ∉ (turns candidates saved verified before).used := by
  have differs : ∀ q ∈ before ++ after, q.key ≠ p.key := fun q => sole.other
  have fresh : (turns candidates saved verified before).reasons.get p.key =
      none := (foldl_other (turn_turned _ _ _) _ fun q member =>
    differs q (List.mem_append_left _ member)).2
  have final := foldl_other (turn_turned candidates saved verified)
    (turn candidates saved verified
      (turns candidates saved verified before) p) fun q member =>
    differs q (List.mem_append_right _ member)
  have whole : turns candidates saved verified ports =
      after.foldl (turn candidates saved verified)
        (turn candidates saved verified
          (turns candidates saved verified before) p) := by
    rw [sole.ports, turns, List.foldl_append]
    rfl
  rw [← whole] at final
  obtain ⟨takes, leaves⟩ := turn_taken candidates saved verified
    (turns candidates saved verified before) p
  constructor
  · rintro ⟨-, reason⟩
    have verifiedHere := guesses_verified ports reason
    rw [final.2] at verifiedHere
    cases what : taken candidates saved verified
        (turns candidates saved verified before).used p with
    | some both =>
        rw [takes _ _ what, Suggestion.take, Dict.get_put_same]
          at verifiedHere
        obtain ⟨d, why⟩ := both
        obtain rfl : why = .verified := Option.some.inj verifiedHere
        obtain ⟨named, found⟩ := taken_verified.mp what
        refine ⟨named, fun inUse => ?_⟩
        rw [sole.names, (find_none sole.present).mpr inUse] at found
        cases found
    | none =>
        rcases leaves what with same | unassigned
        · rw [same, fresh] at verifiedHere
          cases verifiedHere
        · rw [unassigned, Dict.get_put_same] at verifiedHere
          cases verifiedHere
  · rintro ⟨named, free⟩
    obtain ⟨v, found⟩ : ∃ v, find candidates
        (turns candidates saved verified before).used (some c.entry) =
          some v := by
      rw [← Option.ne_none_iff_exists']
      exact fun missing => free ((find_none sole.present).mp missing)
    have same := (find_some found).1
    rw [← sole.names] at found
    rw [takes v .verified (taken_verified.mpr ⟨named, found⟩)] at final
    simp only [Suggestion.take, Dict.get_put_same, same] at final
    have kept := guesses_settled candidates ports
      (by rw [final.1]; rfl)
    exact ⟨kept.1.trans final.1, kept.2.trans final.2⟩

/-- Verified wirings win exactly if no ports before contest their candidates,
and so if none asks for them; no candidate is mapped to two ports. -/
theorem suggestMapping_verified_iff (candidates : List Candidate)
    (saved : Dict Name (Option Entry)) (verified : Dict Name Entry)
    (ports : List Port) :
    (VerifiedWins candidates saved verified ports ↔
        Uncontested candidates saved verified ports) ∧
      (Unnamed candidates saved verified ports →
        VerifiedWins candidates saved verified ports) ∧
      ∀ key other e,
        (suggestMapping candidates saved verified ports).mapping.get key =
          some e →
        (suggestMapping candidates saved verified ports).mapping.get other =
          some e → key = other := by
  have sound : (suggestMapping candidates saved verified ports).Sound :=
    foldl_sound (guess_turned _)
      (foldl_sound (turn_turned _ _ _) Suggestion.Sound.empty ports) ports
  have exactly : VerifiedWins candidates saved verified ports ↔
      Uncontested candidates saved verified ports := by
    refine forall₅_congr fun before p after c sole => ?_
    rw [sole.wins_iff]
    exact and_congr_right fun _ => not_congr ⟨contested_of_used, Contested.inUse⟩
  refine ⟨exactly, fun unnamed => exactly.mpr fun before p after c sole => ?_,
    sound.inj⟩
  obtain ⟨truthful, apart⟩ := unnamed before p after c sole
  refine ⟨truthful, fun contested => ?_⟩
  generalize same : c.key = key at contested
  obtain ⟨asked, -⟩ := contested
  refine apart _ (List.mem_append_right _ List.mem_cons_self) _ ?_ same.symm
  rw [asked]
  exact List.mem_append_right _ List.mem_cons_self

end

/-- The saved choice of a port takes the candidate that the wiring of a later
port was verified with. -/
theorem suggestMapping_saved_first :
    let c : Candidate := ⟨"s".toList, "e".toList, none, true⟩
    let first : Port := ⟨"m:5".toList, some "5".toList, [], true⟩
    let second : Port := ⟨"m:6".toList, some "6".toList, [], true⟩
    let saved := Dict.empty.put first.key (some c.entry)
    let verified := Dict.empty.put second.key c.entry
    let s := suggestMapping [c] saved verified [first, second]
    s.mapping.get first.key = some c.entry ∧
      s.reasons.get first.key = some .saved ∧
      s.mapping.get second.key = none ∧
      ¬ ∀ candidates saved verified ports,
        VerifiedWins candidates saved verified ports := by
  intro c first second saved verified s
  have missing : s.mapping.get second.key = none := by decide
  refine ⟨by decide, by decide, missing, fun all => ?_⟩
  have sole : Sole [c] verified [first, second] [first] second [] c := by
    refine ⟨rfl, by simp, by decide, fun q member => ?_⟩
    rw [List.mem_singleton.mp member]
    decide
  have wins := (all [c] saved verified [first, second] [first] second [] c
    sole).1
  rw [missing] at wins
  cases wins

end Topology
end Cli
end Mcdma
