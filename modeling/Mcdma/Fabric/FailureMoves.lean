import Mcdma.Fabric.Failure

/-!
# The steps of a peer that may fail

What a step of a thread and an event do to a peer, one case for each branch with
the test that leads there.  What the steps keep is read off these cases.
-/

namespace Mcdma
namespace Fabric
namespace Failure

open Setup

namespace Peer

section

variable (peer : Peer) (thread : Nat) (luck : Luck)

/-- What a thread does from where it stands.  The text of the reason aside, a
thread that starts `peer_fail` is described by its job. -/
inductive Proceeds : Pc → Peer → Prop
  | loses {job : Job} (failing : peer.failing = true) :
      Proceeds (.claim job) (peer.goto thread (.mark job))
  | claims {job : Job} (first : peer.failing = false) :
      Proceeds (.claim job)
        ({ peer with failing := true }.goto thread (.record job))
  | records {job : Job} :
      Proceeds (.record job)
        ({ peer with why := job.text }.goto thread (.publish job))
  | publishes {job : Job} :
      Proceeds (.publish job)
        ({ peer with whyDone := true }.goto thread (.flag job 0))
  | flagsTop {job : Job} {index : Nat} (tell : job.tell = true)
      (more : index < max peer.bonded 1) (single : peer.bonded = 0) :
      Proceeds (.flag job index)
        ({ peer with tell := Function.update peer.tell .top true }.goto thread
          (.flag job (index + 1)))
  | flagsLane {job : Job} {index : Nat} (tell : job.tell = true)
      (more : index < max peer.bonded 1) (bonded : peer.bonded ≠ 0)
      (part : peer.part index = true) :
      Proceeds (.flag job index)
        ({ peer with
          tell := Function.update peer.tell (.lane index) true }.goto thread
            (.flag job (index + 1)))
  | skips {job : Job} {index : Nat} (tell : job.tell = true)
      (more : index < max peer.bonded 1) (bonded : peer.bonded ≠ 0)
      (apart : peer.part index = false) :
      Proceeds (.flag job index) (peer.goto thread (.flag job (index + 1)))
  | flagged {job : Job} {index : Nat}
      (past : ¬(job.tell = true ∧ index < max peer.bonded 1)) :
      Proceeds (.flag job index) (peer.goto thread (.mark job))
  | marksPeer {job : Job} (target : job.target = .top) :
      Proceeds (.mark job)
        ({ peer with down := true }.goto thread (.markTop job))
  | marksLane {job : Job} {lane : Nat} (target : job.target = .lane lane) :
      Proceeds (.mark job)
        ({ peer with
          laneDown := Function.update peer.laneDown lane true }.goto thread
            (.markBond job))
  | marksBond {job : Job} :
      Proceeds (.markBond job)
        ({ peer with down := true }.goto thread (.markTop job))
  | marksTop {job : Job} :
      Proceeds (.markTop job)
        ({ peer with down := true }.goto thread job.done)
  | loads {target : Target} {next : Next} :
      Proceeds (.tellLoad target next)
        (peer.goto thread
          (if peer.tell target then .tellSwap target next else next.pc))
  | swaps {target : Target} {next : Next} :
      Proceeds (.tellSwap target next)
        ({ peer with tell := Function.update peer.tell target false }.goto
          thread (if peer.tell target then .tellSend target next else next.pc))
  | sends {target : Target} {next : Next} (opened : luck.opened = true) :
      Proceeds (.tellSend target next)
        ({ peer with
          sent := Function.update peer.sent target (peer.sent target ++
            [if peer.whyDone then peer.why else "failed"]) }.goto thread
              next.pc)
  | sendsNothing {target : Target} {next : Next} (shut : luck.opened = false) :
      Proceeds (.tellSend target next) (peer.goto thread next.pc)
  | failsFlush {call : Call} {job : Job}
      (closed : peer.down = true ∨ luck.refuses = true)
      (fences : peer.bonded ≠ 0 ∧ call.request.isFlush = true)
      (target : job.target = .top) (tell : job.tell = true)
      (tells : job.tells = none) (next : job.next = .settle call) :
      Proceeds (.look call) (peer.goto thread (.claim job))
  | turnsBack {call : Call} (closed : peer.down = true ∨ luck.refuses = true)
      (other : ¬(peer.bonded ≠ 0 ∧ call.request.isFlush = true)) :
      Proceeds (.look call) (peer.goto thread (.settle call))
  | enters {call : Call} (up : ¬(peer.down = true ∨ luck.refuses = true)) :
      Proceeds (.look call) (peer.goto thread (.body call))
  | posts {call : Call} {target : Target} (op : luck.op = .post target) :
      Proceeds (.body call)
        (peer.goto thread (.body { call with posts := call.posts + 1 }))
  | failsLink {call : Call} {job : Job} {target : Target}
      {why : Option String} (op : luck.op = .fail target why)
      (fails : job.target = target) (tell : job.tell = true)
      (tells : job.tells = none) (next : job.next = .body call) :
      Proceeds (.body call) (peer.goto thread (.claim job))
  | tells {call : Call} {target : Target} (op : luck.op = .tell target) :
      Proceeds (.body call) (peer.goto thread (.tellLoad target (.body call)))
  | finishes {call : Call} {failed : Bool} (op : luck.op = .finish failed) :
      Proceeds (.body call)
        (peer.goto thread (if failed then .settle call else .returned call .ok))
  | settles {call : Call} {job : Job} (target : job.target = .top)
      (tell : job.tell = true)
      (tells : job.tells = if peer.bonded = 0 then some .top else none)
      (next : job.next = .failed call) :
      Proceeds (.settle call) (peer.goto thread (.claim job))

end

section

variable {peer next : Peer} {thread : Nat} {luck : Luck}

/-- Every step of a thread is one of them. -/
theorem proceeds (taken : peer.proceed thread luck = some next) :
    Proceeds peer thread luck (peer.pcs thread) next := by
  unfold Peer.proceed at taken
  cases stands : peer.pcs thread with
  | idle => simp [stands] at taken
  | returned call status => simp [stands] at taken
  | claim job =>
      simp only [stands] at taken
      split at taken
      · next failing =>
          obtain rfl := Option.some.inj taken
          exact .loses failing
      · next first =>
          obtain rfl := Option.some.inj taken
          exact .claims (by simpa using first)
  | record job =>
      simp only [stands, Option.some.injEq] at taken
      exact taken ▸ .records
  | publish job =>
      simp only [stands, Option.some.injEq] at taken
      exact taken ▸ .publishes
  | flag job index =>
      simp only [stands] at taken
      split at taken
      · next more =>
          split at taken
          · next single =>
              obtain rfl := Option.some.inj taken
              exact .flagsTop more.1 more.2 single
          · next bonded =>
              split at taken
              · next part =>
                  obtain rfl := Option.some.inj taken
                  exact .flagsLane more.1 more.2 bonded part
              · next apart =>
                  obtain rfl := Option.some.inj taken
                  exact .skips more.1 more.2 bonded (by simpa using apart)
      · next past =>
          obtain rfl := Option.some.inj taken
          exact .flagged past
  | mark job =>
      simp only [stands] at taken
      split at taken
      · next target =>
          obtain rfl := Option.some.inj taken
          exact .marksPeer target
      · next lane target =>
          obtain rfl := Option.some.inj taken
          exact .marksLane target
  | markBond job =>
      simp only [stands, Option.some.injEq] at taken
      exact taken ▸ .marksBond
  | markTop job =>
      simp only [stands, Option.some.injEq] at taken
      exact taken ▸ .marksTop
  | tellLoad target after =>
      simp only [stands, Option.some.injEq] at taken
      exact taken ▸ .loads
  | tellSwap target after =>
      simp only [stands, Option.some.injEq] at taken
      exact taken ▸ .swaps
  | tellSend target after =>
      simp only [stands] at taken
      split at taken
      · next opened =>
          obtain rfl := Option.some.inj taken
          exact .sends opened
      · next shut =>
          obtain rfl := Option.some.inj taken
          exact .sendsNothing (by simpa using shut)
  | look call =>
      simp only [stands] at taken
      split at taken
      · next closed =>
          split at taken
          · next fences =>
              obtain rfl := Option.some.inj taken
              exact .failsFlush closed fences rfl rfl rfl rfl
          · next other =>
              obtain rfl := Option.some.inj taken
              exact .turnsBack closed other
      · next up =>
          obtain rfl := Option.some.inj taken
          exact .enters up
  | body call =>
      simp only [stands] at taken
      cases op : luck.op with
      | post target =>
          simp only [op, Option.some.injEq] at taken
          exact taken ▸ .posts op
      | fail target why =>
          simp only [op, Option.some.injEq] at taken
          exact taken ▸ .failsLink op rfl rfl rfl rfl
      | tell target =>
          simp only [op, Option.some.injEq] at taken
          exact taken ▸ .tells op
      | finish failed =>
          simp only [op, Option.some.injEq] at taken
          exact taken ▸ .finishes op
  | settle call =>
      simp only [stands, Option.some.injEq] at taken
      exact taken ▸ .settles rfl rfl rfl rfl

end

/-- What an action does. -/
inductive Steps (peer : Peer) : Act → Peer → Prop
  | calls {thread : Nat} {request : Request} (idle : peer.pcs thread = .idle)
      (refused : peer.refusal request = none) :
      Steps peer (.call thread request)
        (peer.goto thread (.look { request := request, late := peer.down }))
  | refused {thread : Nat} {request : Request} {status : Status}
      (idle : peer.pcs thread = .idle)
      (refused : peer.refusal request = some status) :
      Steps peer (.call thread request)
        (peer.goto thread
          (.returned { request := request, late := peer.down } status))
  | leaves {thread : Nat} {call : Call} {status : Status}
      (returned : peer.pcs thread = .returned call status) :
      Steps peer (.leave thread) (peer.goto thread .idle)
  | proceeds {thread : Nat} {luck : Luck} {next : Peer}
      (moves : Proceeds peer thread luck (peer.pcs thread) next) :
      Steps peer (.proceed thread luck) next
  | tells {thread : Nat} {target : Target} {failed : Bool}
      {link : Option String} (idle : peer.pcs thread = .idle)
      (has : peer.HasLink target) (down : peer.peerDown target = true) :
      Steps peer (.progress thread target failed link)
        (peer.goto thread (.tellLoad target .idle))
  | fails {thread : Nat} {target : Target} {link : Option String} {job : Job}
      (idle : peer.pcs thread = .idle) (has : peer.HasLink target)
      (up : peer.peerDown target = false) (fails : job.target = target)
      (tell : job.tell = true) (tells : job.tells = some target)
      (next : job.next = .idle) :
      Steps peer (.progress thread target true link)
        (peer.goto thread (.claim job))
  | works {thread : Nat} {target : Target} {link : Option String}
      (idle : peer.pcs thread = .idle) (has : peer.HasLink target)
      (up : peer.peerDown target = false) :
      Steps peer (.progress thread target false link) peer
  | hears {thread : Nat} {target : Target} {m : Xmsg} {job : Job} {next : Next}
      {why : String} (reads : (peer.pcs thread).reads = some next)
      (has : peer.HasLink target) (up : peer.peerDown target = false)
      (said : peer.serviced target m = some why) (fails : job.target = target)
      (tell : job.tell = false) (tells : job.tells = none)
      (goesOn : job.next = next) :
      Steps peer (.service thread target m) (peer.goto thread (.claim job))
  | ignores {thread : Nat} {target : Target} {m : Xmsg} {next : Next}
      (reads : (peer.pcs thread).reads = some next)
      (has : peer.HasLink target) (up : peer.peerDown target = false)
      (nothing : peer.serviced target m = none) :
      Steps peer (.service thread target m) peer
  | refuses (bonded : peer.bonded ≠ 0) :
      Steps peer .refuse { peer with down := true }

/-- Every step is one of them. -/
theorem steps {peer next : Peer} {act : Act}
    (taken : peer.step act = some next) : Steps peer act next := by
  cases act with
  | call thread request =>
      simp only [Peer.step] at taken
      split at taken
      · next idle =>
          obtain rfl := Option.some.inj taken
          cases refused : peer.refusal request with
          | none => exact .calls idle refused
          | some status => exact .refused idle refused
      · cases taken
  | leave thread =>
      simp only [Peer.step] at taken
      split at taken
      · next returned =>
          obtain rfl := Option.some.inj taken
          exact .leaves returned
      · cases taken
  | proceed thread luck => exact .proceeds (proceeds taken)
  | progress thread target failed link =>
      simp only [Peer.step] at taken
      split at taken
      · next stands =>
          split at taken
          · next down =>
              obtain rfl := Option.some.inj taken
              exact .tells stands.1 stands.2 down
          · next alive =>
              have up : peer.peerDown target = false := by simpa using alive
              split at taken
              · next bad =>
                  obtain rfl := Option.some.inj taken
                  obtain rfl : failed = true := bad
                  exact .fails stands.1 stands.2 up rfl rfl rfl rfl
              · next fine =>
                  obtain rfl := Option.some.inj taken
                  obtain rfl : failed = false := by simpa using fine
                  exact .works stands.1 stands.2 up
      · cases taken
  | service thread target m =>
      simp only [Peer.step] at taken
      split at taken
      · cases taken
      · next next reads =>
          split at taken
          · next stands =>
              split at taken
              · next why said =>
                  obtain rfl := Option.some.inj taken
                  exact .hears reads stands.1 stands.2 said rfl rfl rfl rfl
              · next nothing =>
                  obtain rfl := Option.some.inj taken
                  exact .ignores reads stands.1 stands.2 nothing
          · cases taken
  | refuse =>
      simp only [Peer.step] at taken
      split at taken
      · next bonded =>
          obtain rfl := Option.some.inj taken
          exact .refuses bonded
      · cases taken

end Peer

end Failure
end Fabric
end Mcdma
