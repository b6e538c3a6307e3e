/-
ScriptRegistry/Algorithm/Sample.lean

A sample submission that keeps the default policies: it counts users by the
antenna of their home and drops the small counts.
-/
import ScriptRegistry.Algorithm.Submission

namespace ScriptRegistry.Sample

/-- The main script of the sample. -/
def mainSource : String :=
  "import opalalgorithms.utils as utils\n" ++
  "from opalalgorithms.core import OPALAlgorithm\n" ++
  "\n\n" ++
  "class PopulationDensity(OPALAlgorithm):\n" ++
  "    \"\"\"Count users per home antenna.\"\"\"\n" ++
  "\n" ++
  "    def __init__(self):\n" ++
  "        super(PopulationDensity, self).__init__()\n" ++
  "\n" ++
  "    def map(self, params, bandicoot_user):\n" ++
  "        # one vote per user for their home location\n" ++
  "        home = bandicoot_user.recharges_home()\n" ++
  "        return \x7bstr(home): 1\x7d\n"

/-- The privacy script of the sample. -/
def privacySource : String :=
  "from opalalgorithms.core import OPALPrivacy\n" ++
  "\n\n" ++
  "class Density(OPALPrivacy):\n" ++
  "    \"\"\"Drop buckets smaller than the configured threshold.\"\"\"\n" ++
  "\n" ++
  "    def __call__(self, params, result, salt):\n" ++
  "        threshold = params.get(\"threshold\", 10)\n" ++
  "        return \x7bk: v for k, v in result.items() if v >= threshold\x7d\n"

/-- The sample submission; a key brings the privacy script with it. -/
def submission (key : Option String) : Submission where
  name := ⟨"pop-density", by decide⟩
  description := "Population density"
  main := ⟨Transport.encodeText mainSource, "PopulationDensity", .sum⟩
  privacy := key.map fun key => ⟨Transport.encodeText privacySource, "Density", key⟩

end ScriptRegistry.Sample
