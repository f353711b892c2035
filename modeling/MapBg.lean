import MapBg.Lib.RunLength
import MapBg.Lib.Word
import MapBg.Lib.Forest
import MapBg.Lib.Heap
import MapBg.Lib.Map
import MapBg.Lib.Line
import MapBg.Lib.Sorted
import MapBg.Lib.Grid
import MapBg.Lib.Extreme
import MapBg.Lib.Run
import MapBg.Loc.Basic
import MapBg.Loc.Tree
import MapBg.Loc.Address
import MapBg.Loc.Index
import MapBg.Loc.Box
import MapBg.Loc.Exact
import MapBg.Loc.Nesting
import MapBg.Level.Store
import MapBg.Oct.Rle
import MapBg.Oct.LoadVB
import MapBg.Oct.FindHit
import MapBg.Oct.Intersect
import MapBg.Terrain.Tile
import MapBg.Terrain.Selection
import MapBg.Terrain.Tiles
import MapBg.Terrain.Evict
import MapBg.Oct.Tile
import MapBg.Oct.Ground
import MapBg.Terrain.Sample
import MapBg.Select.View
import MapBg.Select.Frustum
import MapBg.Select.Update
import MapBg.Select.Release
import MapBg.Select.Pick
import MapBg.Select.Locate
import MapBg.Select.Depth
import MapBg.World.Persist
import MapBg.World.Keys
import MapBg.Loader.Queue
import MapBg.Loader.Life
import MapBg.Lib.Transport
import MapBg.Terrain.Erosion
import MapBg.Terrain.Heights
import MapBg.Lib.Extended
import MapBg.Select.RayBox
import MapBg.Gmtl.Matrix
import MapBg.Select.Camera
import MapBg.Select.Clip
import MapBg.Select.Frame
import MapBg.Select.Aim
import MapBg.World.Motion
import MapBg.World.Session
import MapBg.Select.Cubes
import MapBg.Select.Surface
import MapBg.Terrain.Noise
import MapBg.Terrain.Generate
import MapBg.Terrain.Seams
import MapBg.World.Landscape
