import LeastSquares.Random.Words

/-! # Standard normal numbers

The upper half of the density is covered by 256 layers of equal area. A draw picks a layer and a
point in it. Most points lie in the part of their layer that is under the density all along; the
others are tested against the density, and drawn again if they are above it. The lowest layer has
an infinite tail, which is drawn from by exponential numbers.

A draw that fails is repeated, but not forever. Since most points are accepted, a thousand failures
in a row have odds of less than one in `10 ^ 600`; the number is then zero.
-/

namespace LeastSquares.Random

/-- Where the layers end, from the lowest up. The first is what the lowest one would reach to if it
had no tail. -/
def edges : Array Float :=
  #[3.91075795953709, 3.654152885361009, 3.4492782985609645, 3.320244733839166, 3.224575052047029,
    3.14788928951715, 3.083526132001233, 3.0278377917686354, 2.978603279880845,
    2.9343668672078542, 2.894121053612348, 2.8571387308721325, 2.822877396825325,
    2.7909211740007858, 2.7609440052788226, 2.732685359042827, 2.705933656121858,
    2.680514643284522, 2.6562830375755024, 2.6331163936303246, 2.6109105184875485,
    2.589575986706995, 2.5690354526805366, 2.5492215503234608, 2.530075232158517,
    2.5115444416253423, 2.4935830412696807, 2.4761499396691433, 2.4592083743333113,
    2.4427253181989568, 2.426670984935726, 2.4110184138996855, 2.3957431197804806,
    2.380822795170626, 2.3662370567158186, 2.35196722737766, 2.3379961487950314,
    2.324308018869623, 2.31088825059985, 2.2977233489013296, 2.284800802722946, 2.272108990226824,
    2.259637095172218, 2.2473750329458078, 2.235313384928328, 2.2234433400909057,
    2.2117566428825444, 2.200245546609648, 2.1889027716247207, 2.1777214677386416,
    2.166695180352646, 2.1558178198750633, 2.1450836340462036, 2.13448718284432,
    2.1240233156878157, 2.113687150684934, 2.103474055713147, 2.0933796311370503,
    2.083399693996552, 2.0735302635169788, 2.0637675478099564, 2.054107931648865,
    2.044547965215733, 2.0350843537278087, 2.025713947862033, 2.0164337349043717,
    2.007240830558685, 1.9981324713565642, 1.9891060076155713, 1.9801588968985984,
    1.9712886979317696, 1.962493064942462, 1.953769742382734, 1.945116560006754,
    1.936531428273759, 1.9280123340507183, 1.9195573365912288, 1.9111645637692822,
    1.9028322085484464, 1.89455852566871, 1.8863418285347764, 1.8781804862909777,
    1.8700729210692368, 1.8620176053976323, 1.8540130597581481, 1.8460578502831198,
    1.8381505865807286, 1.8302899196806666, 1.8224745400917832, 1.8147031759641676,
    1.8069745913486934, 1.7992875845475802, 1.79164098655001, 1.7840336595472763,
    1.776464495522345, 1.768932414909078, 1.7614363653167067, 1.753975320315455,
    1.746548278279493, 1.739154261283669, 1.7317923140507072, 1.7244615029457757,
    1.7171609150155407, 1.709889657069006, 1.702646854797614, 1.6954316519322385,
    1.6882432094348587, 1.6810807047228233, 1.6739433309237604, 1.6668302961592867,
    1.6597408228557895, 1.6526741470806485, 1.6456295179023603, 1.6386061967731111,
    1.631603456932422, 1.6246205828305684, 1.6176568695705342, 1.6107116223673337,
    1.603784156023583, 1.5968737944202613, 1.5899798700216485, 1.5831017233934714,
    1.5762387027333329, 1.5693901634125345, 1.5625554675284397, 1.555733983466555,
    1.5489250854715355, 1.5421281532263476, 1.5353425714388431, 1.5285677294350246,
    1.521803020758293, 1.5150478427739924, 1.508301596278572, 1.5015636851127065,
    1.4948335157777184, 1.4881104970546544, 1.4813940396253757, 1.4746835556950255,
    1.467978458615231, 1.4612781625074078, 1.4545820818855233, 1.4478896312776697,
    1.441200224845798, 1.4345132760029464, 1.4278281970272904, 1.4211443986723231,
    1.4144612897724647, 1.4077782768433715, 1.4010947636762026, 1.3944101509250713,
    1.3877238356868846, 1.381035211072742, 1.3743436657700305, 1.367648583594318,
    1.3609493430301018, 1.3542453167594306, 1.3475358711773593, 1.3408203658931521,
    1.3340981532160836, 1.3273685776246247, 1.32063097521773, 1.313884673146869,
    1.3071289890273539, 1.3003632303274337, 1.2935866937335176, 1.2867986644897864,
    1.2799984157103332, 1.2731852076618437, 1.2663582870146883, 1.2595168860601442,
    1.2526602218912979, 1.245787495544998, 1.2388978911020274, 1.231990574742445,
    1.225064693752808, 1.2181193754817266, 1.2111537262399112, 1.2041668301405601,
    1.197157747875586, 1.1901255154228016, 1.1830691426787607, 1.1759876120114898,
    1.1688798767268338, 1.1617448594415742, 1.1545814503558518, 1.1473885054167339,
    1.1401648443639958, 1.132909248648337, 1.1256204592112944, 1.118297174115063,
    1.1109380460092495, 1.1035416794202682, 1.0961066278476035, 1.0886313906495142,
    1.0811144096988894, 1.0735540657878717, 1.0659486747575067, 1.0582964833260065,
    1.0505956645862071, 1.0428443131393705, 1.0350404398286053, 1.0271819660307513,
    1.0192667174605292, 1.0112924174349784, 1.0032566795395914, 0.9951569996299431,
    0.9869907470938463, 0.9787551552889378, 0.9704473110588646, 0.9620641432176052,
    0.9536024098755727, 0.9450586844625711, 0.9364293402808969, 0.9277105333962348,
    0.918898183643735, 0.909987953490769, 0.9009752244551745, 0.8918550707267924,
    0.8826222295789101, 0.8732710680824946, 0.8637955455468269, 0.8541891710015606,
    0.8444449549024237, 0.8345553540795188, 0.8245122087452886, 0.8143066701280643,
    0.8039291169826649, 0.7933690588331528, 0.7826150232995888, 0.7716544242167394,
    0.7604734064220832, 0.7490566620095817, 0.7373872114258386, 0.7254461409013035,
    0.7132122851820227, 0.7006618410975844, 0.6877678927862577, 0.6744998228274365,
    0.660822574234206, 0.6466957148843889, 0.6320722363750246, 0.6168969899962355,
    0.6011046177439404, 0.5846167660937223, 0.567338257040473, 0.5491517023130268,
    0.5299097206464951, 0.5094233295859334, 0.48744396612175434, 0.46363433677176324,
    0.43751840218666266, 0.40838913458800075, 0.3751213328504657, 0.33573751918045946,
    0.2861745917472605, 0.2152418959132738, 0.0]

def edge (i : Nat) : Float := edges.getD i 0

/-- The density, up to a factor. -/
def density (x : Float) : Float := Float.exp (-x * x / 2)

def tailStart : Float := edge 1

/-- A position in the words of a key. -/
structure Cursor where
  key : Key
  position : Nat

namespace Cursor

def next (c : Cursor) : UInt64 × Cursor := (word c.key c.position, ⟨c.key, c.position + 1⟩)

end Cursor

/-- The number in `[-1, 1)` that the high bits of a word name. -/
def symmetric (w : UInt64) : Float := Float.ofBits ((w >>> 12) ||| 0x4000000000000000) - 3

/-- The number in `(0, 1)` that the high bits of a word name. -/
def inside (w : UInt64) : Float :=
  Float.ofBits ((w >>> 12) ||| 0x3FF0000000000000) - (1 - 1 / 9007199254740992)

/-- The number in `[0, 1)` that the high bits of a word name. -/
def fraction (w : UInt64) : Float := (w >>> 11).toFloat / 9007199254740992

/-- A number from the tail, as its distance from where the tail begins. -/
def tail : (attempts : Nat) → Cursor → Float × Cursor
  | 0, c => (0, c)
  | attempts + 1, c =>
    let (w, c) := c.next
    let (v, c) := c.next
    let p := Float.log (inside w) / tailStart
    let q := Float.log (inside v)
    if -2 * q < p * p then tail attempts c else (p, c)

def standard : (attempts : Nat) → Cursor → Float × Cursor
  | 0, c => (0, c)
  | attempts + 1, c =>
    let (w, c) := c.next
    let layer := (w &&& 0xFF).toNat
    let u := symmetric w
    let x := u * edge layer
    if x.abs < edge (layer + 1) then (x, c)
    else if layer = 0 then
      let (p, c) := tail 1000 c
      (if u < 0 then p - tailStart else tailStart - p, c)
    else
      let (v, c) := c.next
      let low := density (edge layer)
      let high := density (edge (layer + 1))
      if high + (low - high) * fraction v < density x then (x, c) else standard attempts c

def ziggurat : Source Float where
  State := Cursor
  start seed := ⟨keyOf seed, 0⟩
  draw := standard 1000

end LeastSquares.Random
